import Mathlib.Tactic.Ring

/-!
# Rapids.Lib.Bytes

**Values as bytes.** `ReadsBack` is what a format promises of a value: it is
written, and reading from there gives the value and what stands behind it, whatever
that is.

A fixed-width integer has its least significant byte first (`leBytes`).

A **variable-length integer** is written in base 128, most significant digit first;
every byte but the last has its high bit set, and every digit but the last stands
for one more than it says, so that no number has two forms. The writer fills a
buffer from the last digit on and empties it backwards. The buffer has room for as
many digits as the integer type has groups of seven bits; `writeVarInt_isSome` says
that this is enough. The reader works modulo the size of the type, and
`readsBack_varInt` says that it reads a written number back and stops where the
number ends.
-/

namespace Rapids.Lib

/-! ### Formats -/

/-- The value is written, and read back together with what is behind it. -/
def ReadsBack {α : Type} (write : α → Option (List UInt8))
    (read : List UInt8 → Option (α × List UInt8)) (a : α) : Prop :=
  ∃ bytes, write a = some bytes ∧ ∀ rest, read (bytes ++ rest) = some (a, rest)

/-- Read a given number of bytes. -/
def takeBytes (size : Nat) (bytes : List UInt8) : Option (List UInt8 × List UInt8) :=
  if size ≤ bytes.length then some (bytes.take size, bytes.drop size) else none

theorem takeBytes_append {size : Nat} {bytes : List UInt8} (h : bytes.length = size) (rest : List UInt8) :
    takeBytes size (bytes ++ rest) = some (bytes, rest) := by
  subst h
  rw [takeBytes, if_pos (by rw [List.length_append]; omega), List.take_left, List.drop_left]

/-! ### Fixed width -/

/-- The bytes of a `k`-byte integer in memory. -/
def leBytes : Nat → Nat → List UInt8
  | 0, _ => []
  | k + 1, n => UInt8.ofNat (n % 256) :: leBytes k (n / 256)

/-- The integer that bytes in memory are. -/
def ofLeBytes : List UInt8 → Nat
  | [] => 0
  | b :: bs => b.toNat + 256 * ofLeBytes bs

@[simp] theorem leBytes_length (k n : Nat) : (leBytes k n).length = k := by
  induction k generalizing n with
  | zero => rfl
  | succ k ih => rw [leBytes, List.length_cons, ih]

theorem ofLeBytes_leBytes {k n : Nat} (h : n < 256 ^ k) : ofLeBytes (leBytes k n) = n := by
  induction k generalizing n with
  | zero =>
    rw [pow_zero] at h
    exact (Nat.lt_one_iff.mp h).symm
  | succ k ih =>
    rw [pow_succ] at h
    have hbyte : (UInt8.ofNat (n % 256)).toNat = n % 256 := by
      rw [UInt8.toNat_ofNat']
      omega
    rw [leBytes, ofLeBytes, ih (Nat.div_lt_of_lt_mul (by omega)), hbyte]
    omega

/-! ### Variable length -/

variable (more : Bool) (n : Nat)

/-- The last digit of a number, marked if there is one behind it. -/
def varIntDigit : UInt8 := UInt8.ofNat (n % 128 + if more then 128 else 0)

/-- The loop of the writer: fill the buffer, which has room for some more digits.
`none` is a write past the buffer. -/
def varIntDigits : Nat → Bool → Nat → Option (List UInt8)
  | 0, _, _ => none
  | room + 1, more, n =>
    if n ≤ 127 then some [varIntDigit more n]
    else (varIntDigits room true (n / 128 - 1)).map (varIntDigit more n :: ·)

/-- `WriteVarInt`, of a `w`-bit integer. -/
def writeVarInt (w n : Nat) : Option (List UInt8) :=
  (varIntDigits ((w + 6) / 7) false n).map List.reverse

/-- The loop of the reader, with the number so far. -/
def readVarIntFrom (w : Nat) : Nat → List UInt8 → Option (Nat × List UInt8)
  | _, [] => none
  | n, byte :: rest =>
    let n := (n * 128 + byte.toNat % 128) % 2 ^ w
    if 128 ≤ byte.toNat then readVarIntFrom w ((n + 1) % 2 ^ w) rest else some (n, rest)

/-- `ReadVarInt`, into a `w`-bit integer. Returns the number and what is behind it. -/
def readVarInt (w : Nat) (bytes : List UInt8) : Option (Nat × List UInt8) := readVarIntFrom w 0 bytes

/-- The buffer is large enough. -/
theorem varIntDigits_isSome {room n : Nat} (hroom : 0 < room) (hn : n < 128 ^ room) :
    ∃ digits, varIntDigits room more n = some digits := by
  induction room generalizing more n with
  | zero => exact absurd hroom (lt_irrefl 0)
  | succ room ih =>
    rw [varIntDigits]
    split_ifs with hlast
    · exact ⟨_, rfl⟩
    · rw [pow_succ] at hn
      have hpos : 0 < room := by
        refine Nat.pos_of_ne_zero fun hzero => ?_
        rw [hzero, pow_zero] at hn
        omega
      obtain ⟨digits, hdigits⟩ := ih true hpos (n := n / 128 - 1) (by omega)
      exact ⟨_, by rw [hdigits]; rfl⟩

theorem writeVarInt_isSome {w n : Nat} (hw : 0 < w) (hn : n < 2 ^ w) :
    ∃ bytes, writeVarInt w n = some bytes := by
  have hroom : n < 128 ^ ((w + 6) / 7) :=
    calc n < 2 ^ w := hn
      _ ≤ 2 ^ (7 * ((w + 6) / 7)) := Nat.pow_le_pow_right (by omega) (by omega)
      _ = 128 ^ ((w + 6) / 7) := by rw [pow_mul]; norm_num
  obtain ⟨digits, hdigits⟩ := varIntDigits_isSome false (by omega) hroom
  exact ⟨digits.reverse, by rw [writeVarInt, hdigits]; rfl⟩

/-- A digit keeps its low bits. -/
theorem varIntDigit_low : (varIntDigit more n).toNat % 128 = n % 128 := by
  rw [varIntDigit, UInt8.toNat_ofNat']
  cases more with
  | false => simp
  | true => simp

/-- Its high bit is the mark. -/
theorem varIntDigit_high : 128 ≤ (varIntDigit more n).toNat ↔ more = true := by
  rw [varIntDigit, UInt8.toNat_ofNat']
  cases more with
  | false => simp; omega
  | true => simp; omega

/-- One digit read behind its more significant ones. -/
theorem readVarIntFrom_digit {w n high : Nat} (rest : List UInt8) (hn : n < 2 ^ w)
    (hhigh : high * 128 + n % 128 = n) :
    readVarIntFrom w high (varIntDigit more n :: rest) =
      if more then readVarIntFrom w ((n + 1) % 2 ^ w) rest else some (n, rest) := by
  rw [readVarIntFrom, varIntDigit_low, hhigh, Nat.mod_eq_of_lt hn]
  simp [varIntDigit_high]

/-- The digits are read back from the last one to the first. -/
theorem readVarIntFrom_digits {w room n : Nat} {more : Bool} {digits : List UInt8} (hn : n < 2 ^ w)
    (h : varIntDigits room more n = some digits) (rest : List UInt8) :
    readVarIntFrom w 0 (digits.reverse ++ rest) =
      if more then readVarIntFrom w ((n + 1) % 2 ^ w) rest else some (n, rest) := by
  induction room generalizing more n digits rest with
  | zero => cases h
  | succ room ih =>
    rw [varIntDigits] at h
    split_ifs at h with hlast
    · cases h
      exact readVarIntFrom_digit more rest hn (by omega)
    · obtain ⟨higher, hhigher, rfl⟩ := Option.map_eq_some_iff.mp h
      have hread := ih (by omega) hhigher (varIntDigit more n :: rest)
      rw [List.reverse_cons, List.append_assoc, List.singleton_append, hread, if_pos rfl]
      have hhigh : (n / 128 - 1 + 1) % 2 ^ w = n / 128 := by
        rw [Nat.sub_add_cancel (by omega)]
        exact Nat.mod_eq_of_lt (by omega)
      rw [hhigh]
      exact readVarIntFrom_digit more rest hn (by omega)

/-- Every number that the type holds is read back. -/
theorem readsBack_varInt {w n : Nat} (hw : 0 < w) (hn : n < 2 ^ w) :
    ReadsBack (writeVarInt w) (readVarInt w) n := by
  obtain ⟨bytes, hbytes⟩ := writeVarInt_isSome hw hn
  refine ⟨bytes, hbytes, fun rest => ?_⟩
  obtain ⟨digits, hdigits, rfl⟩ := Option.map_eq_some_iff.mp hbytes
  exact readVarIntFrom_digits hn hdigits rest

/-- A byte without the mark is a number. -/
theorem readVarInt_byte {w : Nat} {byte : UInt8} (hw : 7 ≤ w) (h : byte.toNat < 128) (rest : List UInt8) :
    readVarInt w (byte :: rest) = some (byte.toNat, rest) := by
  have hfits : 2 ^ 7 ≤ 2 ^ w := Nat.pow_le_pow_right (by omega) hw
  have hself : (0 * 128 + byte.toNat % 128) % 2 ^ w = byte.toNat := by
    rw [Nat.zero_mul, Nat.zero_add, Nat.mod_eq_of_lt h, Nat.mod_eq_of_lt (by omega)]
  rw [readVarInt, readVarIntFrom, hself, if_neg (by omega)]

end Rapids.Lib
