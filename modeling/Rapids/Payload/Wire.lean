import Rapids.Payload.Base58

/-!
# Rapids.Payload.Wire

**Integers and hashes in a payload** (`parsing.cpp`, `arith_uint256.cpp`). An
integer is swapped on a little-endian host and its memory is appended to the
payload; a reader copies the bytes back into an integer and swaps it again. A
transaction hash travels as its hexadecimal text.

The byte order of the host is a parameter. The two facts that the layouts need
are that the bytes written do not depend on it (`push32_eq`), and that any host
reads from them the number that was written (`read32_wire`).
-/

namespace Rapids.Payload

/-! ### Byte order -/

section

-- what `isBigEndian()` says of the host
variable (isBigEndian : Bool)

def swapByteOrder16 (us : UInt16) : UInt16 :=
  if isBigEndian then us else (us >>> 8) ||| (us <<< 8)

def swapByteOrder32 (ui : UInt32) : UInt32 :=
  if isBigEndian then ui
  else (ui >>> 24) ||| ((ui <<< 8) &&& (0x00FF0000 : UInt32)) |||
    ((ui >>> 8) &&& (0x0000FF00 : UInt32)) ||| (ui <<< 24)

def swapByteOrder64 (ull : UInt64) : UInt64 :=
  if isBigEndian then ull
  else (ull >>> 56) ||| ((ull <<< 40) &&& (0x00FF000000000000 : UInt64)) |||
    ((ull <<< 24) &&& (0x0000FF0000000000 : UInt64)) |||
    ((ull <<< 8) &&& (0x000000FF00000000 : UInt64)) |||
    ((ull >>> 8) &&& (0x00000000FF000000 : UInt64)) |||
    ((ull >>> 24) &&& (0x0000000000FF0000 : UInt64)) |||
    ((ull >>> 40) &&& (0x000000000000FF00 : UInt64)) ||| (ull <<< 56)

/-- The bytes of an integer in memory, from its bytes with the lowest one first. -/
def inMemory (lowFirst : List UInt8) : List UInt8 := if isBigEndian then lowFirst.reverse else lowFirst

def bytes16 (x : UInt16) : List UInt8 := inMemory isBigEndian [x.toUInt8, (x >>> 8).toUInt8]

def bytes32 (x : UInt32) : List UInt8 :=
  inMemory isBigEndian [x.toUInt8, (x >>> 8).toUInt8, (x >>> 16).toUInt8, (x >>> 24).toUInt8]

def bytes64 (x : UInt64) : List UInt8 :=
  inMemory isBigEndian [x.toUInt8, (x >>> 8).toUInt8, (x >>> 16).toUInt8, (x >>> 24).toUInt8,
    (x >>> 32).toUInt8, (x >>> 40).toUInt8, (x >>> 48).toUInt8, (x >>> 56).toUInt8]

/-- The integer of two bytes, the lowest one first. A copy of another length is
none of an integer. -/
def ofLow16 : List UInt8 → UInt16
  | [a, b] => a.toUInt16 ||| (b.toUInt16 <<< 8)
  | _ => 0

def ofLow32 : List UInt8 → UInt32
  | [a, b, c, d] => a.toUInt32 ||| (b.toUInt32 <<< 8) ||| (c.toUInt32 <<< 16) ||| (d.toUInt32 <<< 24)
  | _ => 0

def ofLow64 : List UInt8 → UInt64
  | [a, b, c, d, e, f, g, h] =>
    a.toUInt64 ||| (b.toUInt64 <<< 8) ||| (c.toUInt64 <<< 16) ||| (d.toUInt64 <<< 24) |||
      (e.toUInt64 <<< 32) ||| (f.toUInt64 <<< 40) ||| (g.toUInt64 <<< 48) ||| (h.toUInt64 <<< 56)
  | _ => 0

/-! ### Writing and reading -/

/-- `SwapByteOrder16` and `PUSH_BACK_BYTES`. -/
def push16 (x : UInt16) : List UInt8 := bytes16 isBigEndian (swapByteOrder16 isBigEndian x)

def push32 (x : UInt32) : List UInt8 := bytes32 isBigEndian (swapByteOrder32 isBigEndian x)

def push64 (x : UInt64) : List UInt8 := bytes64 isBigEndian (swapByteOrder64 isBigEndian x)

variable (m : List UInt8) (pos : Nat)

/-- The `n` bytes from a position. -/
def bytesAt (n : Nat) : List UInt8 := (m.drop pos).take n

/-- `memcpy` of one byte. -/
def read8 : UInt8 := (m.drop pos).headD 0

/-- `memcpy` into an integer, and `SwapByteOrder16`. -/
def read16 : UInt16 :=
  swapByteOrder16 isBigEndian (ofLow16 (inMemory isBigEndian (bytesAt m pos 2)))

def read32 : UInt32 :=
  swapByteOrder32 isBigEndian (ofLow32 (inMemory isBigEndian (bytesAt m pos 4)))

def read64 : UInt64 :=
  swapByteOrder64 isBigEndian (ofLow64 (inMemory isBigEndian (bytesAt m pos 8)))

end

/-! ### The order of the wire -/

/-- An integer's bytes with the highest one first. -/
def wire16 (x : UInt16) : List UInt8 := [(x >>> 8).toUInt8, x.toUInt8]

def wire32 (x : UInt32) : List UInt8 :=
  [(x >>> 24).toUInt8, (x >>> 16).toUInt8, (x >>> 8).toUInt8, x.toUInt8]

def wire64 (x : UInt64) : List UInt8 :=
  [(x >>> 56).toUInt8, (x >>> 48).toUInt8, (x >>> 40).toUInt8, (x >>> 32).toUInt8,
    (x >>> 24).toUInt8, (x >>> 16).toUInt8, (x >>> 8).toUInt8, x.toUInt8]

theorem byte_ext {a b : UInt8} (h : ∀ i < 8, a.toBitVec.getLsbD i = b.toBitVec.getLsbD i) : a = b :=
  UInt8.eq_of_toBitVec_eq (BitVec.eq_of_getLsbD_eq h)

theorem push16_eq (isBigEndian : Bool) (x : UInt16) : push16 isBigEndian x = wire16 x := by
  cases isBigEndian with
  | true => rfl
  | false =>
    refine congrArg₂ List.cons ?_ (congrArg₂ List.cons ?_ rfl)
    all_goals
      refine byte_ext fun i hi => ?_
      simp only [swapByteOrder16]
      interval_cases i <;> simp

theorem push32_eq (isBigEndian : Bool) (x : UInt32) : push32 isBigEndian x = wire32 x := by
  cases isBigEndian with
  | true => rfl
  | false =>
    refine congrArg₂ List.cons ?_ (congrArg₂ List.cons ?_ (congrArg₂ List.cons ?_
      (congrArg₂ List.cons ?_ rfl)))
    all_goals
      refine byte_ext fun i hi => ?_
      simp only [swapByteOrder32]
      interval_cases i <;> simp

theorem push64_eq (isBigEndian : Bool) (x : UInt64) : push64 isBigEndian x = wire64 x := by
  cases isBigEndian with
  | true => rfl
  | false =>
    refine congrArg₂ List.cons ?_ (congrArg₂ List.cons ?_ (congrArg₂ List.cons ?_ (congrArg₂ List.cons ?_
      (congrArg₂ List.cons ?_ (congrArg₂ List.cons ?_ (congrArg₂ List.cons ?_
        (congrArg₂ List.cons ?_ rfl)))))))
    all_goals
      refine byte_ext fun i hi => ?_
      simp only [swapByteOrder64]
      interval_cases i <;> simp

theorem ofLow16_bytes (x : UInt16) : ofLow16 (bytes16 false x) = x := by
  refine UInt16.eq_of_toBitVec_eq (BitVec.eq_of_getLsbD_eq fun i hi => ?_)
  -- the bit stands in the byte `i / 8`
  simp only [bytes16, inMemory, ofLow16, Bool.false_eq_true, if_false]
  simp [-UInt16.toUInt16_toUInt8]
  grind

theorem ofLow32_bytes (x : UInt32) : ofLow32 (bytes32 false x) = x := by
  refine UInt32.eq_of_toBitVec_eq (BitVec.eq_of_getLsbD_eq fun i hi => ?_)
  simp only [bytes32, inMemory, ofLow32, Bool.false_eq_true, if_false]
  simp [-UInt32.toUInt32_toUInt8]
  grind

theorem ofLow64_bytes (x : UInt64) : ofLow64 (bytes64 false x) = x := by
  refine UInt64.eq_of_toBitVec_eq (BitVec.eq_of_getLsbD_eq fun i hi => ?_)
  simp only [bytes64, inMemory, ofLow64, Bool.false_eq_true, if_false]
  simp [-UInt64.toUInt64_toUInt8]
  grind

theorem swapByteOrder16_swap (x : UInt16) : swapByteOrder16 false (swapByteOrder16 false x) = x := by
  calc swapByteOrder16 false (swapByteOrder16 false x)
      = ofLow16 (push16 false (swapByteOrder16 false x)) := (ofLow16_bytes _).symm
    _ = ofLow16 (push16 false x).reverse := by rw [push16_eq]; rfl
    _ = x := by rw [push16_eq]; exact ofLow16_bytes x

theorem swapByteOrder32_swap (x : UInt32) : swapByteOrder32 false (swapByteOrder32 false x) = x := by
  calc swapByteOrder32 false (swapByteOrder32 false x)
      = ofLow32 (push32 false (swapByteOrder32 false x)) := (ofLow32_bytes _).symm
    _ = ofLow32 (push32 false x).reverse := by rw [push32_eq]; rfl
    _ = x := by rw [push32_eq]; exact ofLow32_bytes x

theorem swapByteOrder64_swap (x : UInt64) : swapByteOrder64 false (swapByteOrder64 false x) = x := by
  calc swapByteOrder64 false (swapByteOrder64 false x)
      = ofLow64 (push64 false (swapByteOrder64 false x)) := (ofLow64_bytes _).symm
    _ = ofLow64 (push64 false x).reverse := by rw [push64_eq]; rfl
    _ = x := by rw [push64_eq]; exact ofLow64_bytes x

theorem read16_wire (isBigEndian : Bool) (x : UInt16) :
    swapByteOrder16 isBigEndian (ofLow16 (inMemory isBigEndian (wire16 x))) = x := by
  cases isBigEndian with
  | true => exact ofLow16_bytes x
  | false =>
    show swapByteOrder16 false (ofLow16 (wire16 x)) = x
    rw [← push16_eq false, push16, ofLow16_bytes, swapByteOrder16_swap]

theorem read32_wire (isBigEndian : Bool) (x : UInt32) :
    swapByteOrder32 isBigEndian (ofLow32 (inMemory isBigEndian (wire32 x))) = x := by
  cases isBigEndian with
  | true => exact ofLow32_bytes x
  | false =>
    show swapByteOrder32 false (ofLow32 (wire32 x)) = x
    rw [← push32_eq false, push32, ofLow32_bytes, swapByteOrder32_swap]

theorem read64_wire (isBigEndian : Bool) (x : UInt64) :
    swapByteOrder64 isBigEndian (ofLow64 (inMemory isBigEndian (wire64 x))) = x := by
  cases isBigEndian with
  | true => exact ofLow64_bytes x
  | false =>
    show swapByteOrder64 false (ofLow64 (wire64 x)) = x
    rw [← push64_eq false, push64, ofLow64_bytes, swapByteOrder64_swap]

/-! ### Hashes as text -/

/-- A 256-bit number, as its bytes in memory. -/
structure Uint256 where
  bytes : List UInt8
  size : bytes.length = 32
  deriving DecidableEq

/-- The value of a hexadecimal digit (`HexDigit`, which is -1 for other characters). -/
def hexDigit (c : UInt8) : Option UInt8 :=
  if 48 ≤ c ∧ c ≤ 57 then some (c - 48)
  else if 97 ≤ c ∧ c ≤ 102 then some (c - 87)
  else if 65 ≤ c ∧ c ≤ 70 then some (c - 55)
  else none

/-- A digit of `%02x`. -/
def hexChar (n : UInt8) : UInt8 := if n < 10 then n + 48 else n + 87

/-- The hexadecimal text, from the last byte to the first. -/
def Uint256.getHex (h : Uint256) : List UInt8 :=
  h.bytes.reverse.flatMap fun b : UInt8 => [hexChar (b >>> 4), hexChar (b &&& 15)]

/-- Fill `n` bytes with digits, the last digits first. -/
def fillBytes : Nat → List UInt8 → List UInt8
  | 0, _ => []
  | n + 1, [] => 0 :: fillBytes n []
  | n + 1, [lo] => (hexDigit lo).getD 0 :: fillBytes n []
  | n + 1, lo :: hi :: rest => ((hexDigit lo).getD 0 ||| ((hexDigit hi).getD 0 <<< 4)) :: fillBytes n rest

theorem fillBytes_length (n : Nat) (digits : List UInt8) : (fillBytes n digits).length = n := by
  induction n generalizing digits with
  | zero => rfl
  | succ n ih =>
    rcases digits with _ | ⟨lo, _ | ⟨hi, rest⟩⟩
    all_goals exact congrArg Nat.succ (ih _)

/-- The text without a leading `0x`. -/
def skipHexMark (psz : List UInt8) : List UInt8 :=
  if psz.head? = some 48 ∧ (psz[1]? = some 120 ∨ psz[1]? = some 88) then psz.drop 2 else psz

/-- The number of a text: leading spaces and `0x` are skipped, and it ends at
the first character that is no digit. -/
def setHex (psz : List UInt8) : Uint256 where
  bytes := fillBytes 32
    ((skipHexMark (psz.dropWhile isspace)).takeWhile fun c => (hexDigit c).isSome).reverse
  size := fillBytes_length 32 _

def isHex (str : List UInt8) : Bool :=
  str.all (fun c => (hexDigit c).isSome) && decide (0 < str.length) && decide (str.length % 2 = 0)

/-- The hash of a text, which must be 64 digits (or the function throws). -/
def parseHashV (strHex : List UInt8) : Option Uint256 :=
  if isHex strHex = false then none else if strHex.length ≠ 64 then none else some (setHex strHex)

theorem byte_cases {p : UInt8 → Prop} (h : ∀ n < 256, p (UInt8.ofNat n)) (b : UInt8) : p b := by
  have hb := h b.toNat b.toNat_lt
  rwa [UInt8.ofNat_toNat] at hb

theorem fill_hexChar (b : UInt8) :
    (hexDigit (hexChar (b &&& 15))).getD 0 ||| ((hexDigit (hexChar (b >>> 4))).getD 0 <<< 4) = b := by
  refine byte_cases (p := fun b => (hexDigit (hexChar (b &&& 15))).getD 0 |||
    ((hexDigit (hexChar (b >>> 4))).getD 0 <<< 4) = b) ?_ b
  decide +kernel

theorem hexDigit_hexChar (b : UInt8) :
    (hexDigit (hexChar (b &&& 15))).isSome = true ∧ (hexDigit (hexChar (b >>> 4))).isSome = true := by
  refine byte_cases (p := fun b => (hexDigit (hexChar (b &&& 15))).isSome = true ∧
    (hexDigit (hexChar (b >>> 4))).isSome = true) ?_ b
  decide +kernel

theorem hexDigit_ne {c : UInt8} (h : (hexDigit c).isSome = true) : c ≠ 0 ∧ isspace c = false ∧ c ≠ 120 ∧ c ≠ 88 := by
  revert h
  refine byte_cases (p := fun c => (hexDigit c).isSome = true →
    c ≠ 0 ∧ isspace c = false ∧ c ≠ 120 ∧ c ≠ 88) ?_ c
  decide +kernel

theorem fillBytes_flatMap (bs : List UInt8) :
    fillBytes bs.length (bs.flatMap fun b => [hexChar (b &&& 15), hexChar (b >>> 4)]) = bs := by
  induction bs with
  | nil => rfl
  | cons b bs ih =>
    show ((hexDigit (hexChar (b &&& 15))).getD 0 ||| ((hexDigit (hexChar (b >>> 4))).getD 0 <<< 4)) ::
      fillBytes bs.length (bs.flatMap fun b => [hexChar (b &&& 15), hexChar (b >>> 4)]) = b :: bs
    rw [fill_hexChar, ih]

namespace Uint256

variable (h : Uint256)

theorem getHex_reverse :
    h.getHex.reverse = h.bytes.flatMap fun b => [hexChar (b &&& 15), hexChar (b >>> 4)] := by
  rw [getHex, List.reverse_flatMap, List.reverse_reverse]
  rfl

theorem getHex_length : h.getHex.length = 64 := by
  rw [← List.length_reverse, getHex_reverse, List.length_flatMap]
  simp [h.size]

theorem getHex_digits : ∀ c ∈ h.getHex, (hexDigit c).isSome = true := by
  intro c hc
  rw [← List.mem_reverse, getHex_reverse, List.mem_flatMap] at hc
  obtain ⟨b, -, hb⟩ := hc
  rcases List.mem_cons.mp hb with rfl | hb
  · exact (hexDigit_hexChar b).1
  · rw [List.mem_singleton.mp hb]
    exact (hexDigit_hexChar b).2

/-- **A hash comes back** from its text. -/
theorem parseHashV_getHex : parseHashV h.getHex = some h := by
  have hdigits := h.getHex_digits
  have hskip : h.getHex.dropWhile isspace = h.getHex := by
    cases htext : h.getHex with
    | nil => rfl
    | cons c rest =>
      have hc := (hexDigit_ne (hdigits c (htext ▸ (.head _)))).2.1
      rw [List.dropWhile_cons, if_neg (by rw [hc]; exact Bool.false_ne_true)]
  have hmark : skipHexMark h.getHex = h.getHex := by
    refine if_neg ?_
    rintro ⟨-, hx | hx⟩
    · exact (hexDigit_ne (hdigits _ (List.mem_of_getElem? hx))).2.2.1 rfl
    · exact (hexDigit_ne (hdigits _ (List.mem_of_getElem? hx))).2.2.2 rfl
  have hhex : isHex h.getHex = true := by
    rw [isHex, List.all_eq_true.mpr hdigits, getHex_length]
    rfl
  rw [parseHashV, if_neg (by rw [hhex]; exact Bool.noConfusion), if_neg (not_not_intro h.getHex_length),
    Option.some.injEq, setHex]
  obtain ⟨bytes, size⟩ := h
  rw [Uint256.mk.injEq, hskip, hmark, List.takeWhile_eq_self_iff.mpr hdigits, getHex_reverse]
  show fillBytes 32 (bytes.flatMap _) = bytes
  rw [← size]
  exact fillBytes_flatMap bytes

end Uint256

end Rapids.Payload
