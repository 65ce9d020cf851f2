import Mathlib.Data.List.TakeWhile
import Rapids.Lib.Int32

/-!
# Rapids.Lib.Text

**Records as text**: fields with a separator between them, and numbers in decimal.

A text is split where separators stand, and separators next to each other count as one,
so that an empty field inside a record is lost. A record of which no field is empty and
none contains the separator is split into its fields again (`splitFields_joinFields`).

A number is written in decimal, behind a minus sign if it is negative, and read as far as
there are digits (`atoi_intText`).
-/

namespace Rapids.Lib

/-! ### Fields -/

variable (sep : Char) (text : List Char)

/-- Fields with a separator between them. -/
def joinFields (fields : List (List Char)) : List Char := [sep].intercalate fields

/-- Drop the empty fields that are neither first nor last. -/
def compressFields : List (List Char) → List (List Char)
  | [] => []
  | [field] => [field]
  | first :: rest => first :: (rest.dropLast.filter (· ≠ []) ++ [rest.getLastD []])

/-- Split a text, with separators next to each other taken as one. -/
def splitFields : List (List Char) := compressFields (text.splitOn sep)

/-- A field that a record can hold. -/
structure IsField (sep : Char) (field : List Char) : Prop where
  ne_nil : field ≠ []
  not_mem : sep ∉ field

instance (sep : Char) (field : List Char) : Decidable (IsField sep field) :=
  decidable_of_iff (field ≠ [] ∧ sep ∉ field) ⟨fun h => ⟨h.1, h.2⟩, fun h => ⟨h.1, h.2⟩⟩

theorem compressFields_eq_self {fields : List (List Char)} (h : ∀ field ∈ fields, field ≠ []) :
    compressFields fields = fields := by
  rcases fields with _ | ⟨first, _ | ⟨second, rest⟩⟩
  · rfl
  · rfl
  · have hne : second :: rest ≠ [] := List.cons_ne_nil _ _
    have hkept : (second :: rest).dropLast.filter (· ≠ []) = (second :: rest).dropLast := by
      rw [List.filter_eq_self]
      intro field hfield
      exact decide_eq_true (h field (.tail _ (List.dropLast_subset _ hfield)))
    have hlast : (second :: rest).getLastD [] = (second :: rest).getLast hne := by
      rw [List.getLastD_eq_getLast?, List.getLast?_eq_some_getLast hne, Option.getD_some]
    rw [compressFields, hkept, hlast, List.dropLast_concat_getLast]
    exact List.cons_ne_nil _ _

/-- **A record is split into its fields.** -/
theorem splitFields_joinFields {sep : Char} {fields : List (List Char)} (hne : fields ≠ [])
    (h : ∀ field ∈ fields, IsField sep field) : splitFields sep (joinFields sep fields) = fields := by
  rw [splitFields, joinFields, List.splitOn_intercalate sep (fun field hfield => (h field hfield).not_mem) hne,
    compressFields_eq_self fun field hfield => (h field hfield).ne_nil]

/-- The last field may be empty. -/
theorem splitFields_joinFields_last {sep : Char} {fields : List (List Char)} {last : List Char}
    (h : ∀ field ∈ fields, IsField sep field) (hlast : sep ∉ last) :
    splitFields sep (joinFields sep (fields ++ [last])) = fields ++ [last] := by
  have hnot : ∀ field ∈ fields ++ [last], sep ∉ field := by
    intro field hfield
    rcases List.mem_append.mp hfield with hfield | hfield
    · exact (h field hfield).not_mem
    · rwa [List.mem_singleton.mp hfield]
  rw [splitFields, joinFields, List.splitOn_intercalate sep hnot (by simp)]
  rcases fields with _ | ⟨first, fields⟩
  · rfl
  · have hkept : fields.filter (· ≠ []) = fields := by
      rw [List.filter_eq_self]
      intro field hfield
      exact decide_eq_true (h field (.tail _ hfield)).ne_nil
    have hcons : compressFields (first :: (fields ++ [last])) =
        first :: ((fields ++ [last]).dropLast.filter (· ≠ []) ++ [(fields ++ [last]).getLastD []]) := by
      rw [compressFields]
      simp
    rw [List.cons_append, hcons, List.dropLast_concat, hkept]
    simp [List.getLastD_eq_getLast?]

/-- Each field with a separator behind it, and the last separator cut off. -/
theorem dropLast_flatMap_eq_joinFields (fields : List (List Char)) :
    (fields.flatMap fun field => field ++ [sep]).dropLast = joinFields sep fields := by
  induction fields with
  | nil => rfl
  | cons field rest ih =>
    cases rest with
    | nil => simp [joinFields]
    | cons second rest =>
      have hne : (List.flatMap (fun field => field ++ [sep]) (second :: rest)) ≠ [] := by simp
      rw [List.flatMap_cons, List.dropLast_append_of_ne_nil hne, ih]
      simp [joinFields, List.intercalate, List.intersperse]

/-- A text of letters and digits. -/
structure IsWord (text : List Char) : Prop where
  ne_nil : text ≠ []
  isAlphanum : ∀ c ∈ text, c.isAlphanum = true

instance (text : List Char) : Decidable (IsWord text) :=
  decidable_of_iff ((!text.isEmpty && text.all Char.isAlphanum) = true) <| by
    rw [Bool.and_eq_true, Bool.not_eq_true', List.isEmpty_eq_false_iff, List.all_eq_true]
    exact ⟨fun h => ⟨h.1, h.2⟩, fun h => ⟨h.1, h.2⟩⟩

/-- A word is a field, unless letters or digits separate fields. -/
theorem IsWord.isField {sep : Char} {text : List Char} (h : IsWord text) (hsep : sep.isAlphanum = false) :
    IsField sep text := by
  refine ⟨h.ne_nil, fun hmem => ?_⟩
  rw [h.isAlphanum sep hmem] at hsep
  cases hsep

/-! ### Numbers -/

/-- A number in decimal (`%d`). -/
def intText : Int → List Char
  | .ofNat n => Nat.toDigits 10 n
  | .negSucc n => '-' :: Nat.toDigits 10 (n + 1)

/-- The digits at the start of a text. -/
def readDigits : Nat := Nat.ofDigitChars 10 (text.takeWhile Char.isDigit) 0

/-- `atoi`, of a text without blanks in front. -/
def atoi : List Char → Int
  | '-' :: rest => -(readDigits rest : Int)
  | '+' :: rest => readDigits rest
  | text => readDigits text

theorem toDigits_isDigit {n : Nat} {c : Char} (h : c ∈ Nat.toDigits 10 n) : c.isDigit = true :=
  Nat.isDigit_of_mem_toDigits (by decide) (by decide) h

/-- The value of a text of nothing but digits. -/
theorem atoi_of_digits {text : List Char} (h : ∀ c ∈ text, c.isDigit = true) :
    atoi text = Nat.ofDigitChars 10 text 0 := by
  have hall : text.takeWhile Char.isDigit = text := List.takeWhile_eq_self_iff.mpr h
  unfold atoi
  split
  · exact absurd (h '-' (.head _)) (by decide)
  · exact absurd (h '+' (.head _)) (by decide)
  · rw [readDigits, hall]

/-- **A number is read as it was written.** -/
@[simp] theorem atoi_intText (i : Int) : atoi (intText i) = i := by
  cases i with
  | ofNat n =>
    rw [intText, atoi_of_digits fun c hc => toDigits_isDigit hc, Nat.ofDigitChars_ten_toDigits]
    rfl
  | negSucc n =>
    have hall : (Nat.toDigits 10 (n + 1)).takeWhile Char.isDigit = Nat.toDigits 10 (n + 1) :=
      List.takeWhile_eq_self_iff.mpr fun c hc => toDigits_isDigit hc
    rw [intText, atoi, readDigits, hall, Nat.ofDigitChars_ten_toDigits]
    rfl

/-- A number is a field, unless digits or the minus sign separate fields. -/
theorem intText_isField {sep : Char} (hdigit : sep.isDigit = false) (hminus : sep ≠ '-') (i : Int) :
    IsField sep (intText i) := by
  have hnot : ∀ n, sep ∉ Nat.toDigits 10 n := by
    intro n h
    rw [toDigits_isDigit h] at hdigit
    cases hdigit
  cases i with
  | ofNat n => exact ⟨Nat.toDigits_ne_nil, hnot n⟩
  | negSucc n =>
    refine ⟨List.cons_ne_nil _ _, fun h => ?_⟩
    rcases List.mem_cons.mp h with h | h
    · exact hminus h
    · exact hnot _ h

/-- `atoi`, with what `int` makes of the number. -/
def atoi32 : Int := toI32 (clampI64 (atoi text))

theorem atoi32_intText {i : Int} (h : InI64 i) : atoi32 (intText i) = toI32 i := by
  rw [atoi32, atoi_intText, clampI64_of_inI64 h]

theorem atoi32_intText_of_inI32 {i : Int} (h : InI32 i) : atoi32 (intText i) = i := by
  rw [atoi32_intText h.inI64, toI32_of_inI32 h]

/-- The digits of a number, behind a sign. -/
def unsigned : List Char → List Char
  | '-' :: rest => rest
  | '+' :: rest => rest
  | text => text

/-- `boost::lexical_cast` of a text as a whole, to an integer type with these bounds; it throws if
that cannot be. -/
def lexicalCast (low high : Int) (text : List Char) : Option Int :=
  if unsigned text ≠ [] ∧ (unsigned text).all Char.isDigit ∧ low ≤ atoi text ∧ atoi text ≤ high then
    some (atoi text)
  else none

theorem unsigned_of_digits {text : List Char} (h : ∀ c ∈ text, c.isDigit = true) :
    unsigned text = text := by
  unfold unsigned
  split
  · exact absurd (h '-' (.head _)) (by decide)
  · exact absurd (h '+' (.head _)) (by decide)
  · rfl

/-- Nothing but digits, at least one, is left without the sign. -/
theorem unsigned_intText (i : Int) : unsigned (intText i) ≠ [] ∧ (unsigned (intText i)).all Char.isDigit = true := by
  have hdigits : ∀ n, Nat.toDigits 10 n ≠ [] ∧ (Nat.toDigits 10 n).all Char.isDigit = true := fun n =>
    ⟨Nat.toDigits_ne_nil, List.all_eq_true.mpr fun c hc => toDigits_isDigit hc⟩
  cases i with
  | ofNat n =>
    rw [intText, unsigned_of_digits fun c hc => toDigits_isDigit hc]
    exact hdigits n
  | negSucc n => exact hdigits (n + 1)

/-- **A number that fits is cast from its text.** -/
theorem lexicalCast_intText {low high i : Int} (hlow : low ≤ i) (hhigh : i ≤ high) :
    lexicalCast low high (intText i) = some i := by
  obtain ⟨hne, hall⟩ := unsigned_intText i
  rw [lexicalCast, atoi_intText, if_pos ⟨hne, hall, hlow, hhigh⟩]

/-! ### Numbers of a fixed width -/

/-- The last `w` digits of a number, zeros in front. -/
def decText : Nat → Nat → List Char
  | 0, _ => []
  | w + 1, n => Nat.digitChar (n / 10 ^ w % 10) :: decText w n

theorem length_decText (w n : Nat) : (decText w n).length = w := by
  induction w with
  | zero => rfl
  | succ w ih => rw [decText, List.length_cons, ih]

theorem decText_isDigit {w n : Nat} {c : Char} (h : c ∈ decText w n) : c.isDigit = true := by
  have hdigit : ∀ i < 10, (Nat.digitChar i).isDigit = true := by decide
  induction w with
  | zero => cases h
  | succ w ih =>
    rcases List.mem_cons.mp h with rfl | h
    · exact hdigit _ (Nat.mod_lt _ (by decide))
    · exact ih h

theorem ofDigitChars_decText (w n a : Nat) :
    Nat.ofDigitChars 10 (decText w n) a = 10 ^ w * a + n % 10 ^ w := by
  induction w generalizing a with
  | zero => simp [decText, Nat.mod_one]
  | succ w ih =>
    have hlt : n / 10 ^ w % 10 < 10 := Nat.mod_lt _ (by decide)
    rw [decText, Nat.ofDigitChars_cons_digitChar_of_lt_ten hlt, ih, Nat.pow_succ, Nat.mod_mul,
      Nat.mul_add, Nat.mul_assoc]
    omega

/-- The last `w` hexadecimal digits of a number. -/
def hexText : Nat → Nat → List Char
  | 0, _ => []
  | w + 1, n => Nat.digitChar (n / 16 ^ w % 16) :: hexText w n

theorem length_hexText (w n : Nat) : (hexText w n).length = w := by
  induction w with
  | zero => rfl
  | succ w ih => rw [hexText, List.length_cons, ih]

theorem isAlphanum_digitChar : ∀ i < 16, (Nat.digitChar i).isAlphanum = true := by decide

/-- A number of at least one digit is a word. -/
theorem hexText_isWord (w n : Nat) : IsWord (hexText (w + 1) n) := by
  have hall : ∀ v, ∀ c ∈ hexText v n, c.isAlphanum = true := by
    intro v
    induction v with
    | zero => simp [hexText]
    | succ v ih =>
      intro c hc
      rw [hexText, List.mem_cons] at hc
      rcases hc with rfl | hc
      · exact isAlphanum_digitChar _ (Nat.mod_lt _ (by decide))
      · exact ih c hc
  exact ⟨List.cons_ne_nil _ _, hall (w + 1)⟩

theorem digitChar_lt : ∀ i < 16, ∀ j < 16, (Nat.digitChar i < Nat.digitChar j ↔ i < j) := by decide

theorem digitChar_inj : ∀ i < 16, ∀ j < 16, (Nat.digitChar i = Nat.digitChar j ↔ i = j) := by decide

/-- Numbers with a leading digit. -/
theorem mul_add_lt_mul_add {m x y u v : Nat} (hu : u < m) (hv : v < m) :
    m * x + u < m * y + v ↔ x < y ∨ x = y ∧ u < v := by
  rcases lt_trichotomy x y with h | h | h
  · have hle := Nat.mul_le_mul_left m (Nat.succ_le_of_lt h)
    rw [Nat.mul_succ] at hle
    exact iff_of_true (by omega) (.inl h)
  · simp [h]
  · have hle := Nat.mul_le_mul_left m (Nat.succ_le_of_lt h)
    rw [Nat.mul_succ] at hle
    exact iff_of_false (by omega) (by omega)

/-- Texts of one width compare as the numbers do. -/
theorem hexText_lt {w a b : Nat} : hexText w a < hexText w b ↔ a % 16 ^ w < b % 16 ^ w := by
  induction w with
  | zero => simp [hexText, Nat.mod_one]
  | succ w ih =>
    have hdigit : ∀ n, n / 16 ^ w % 16 < 16 := fun n => Nat.mod_lt _ (by decide)
    have hlow : ∀ n, n % 16 ^ w < 16 ^ w := fun n => Nat.mod_lt _ (Nat.pow_pos (by decide))
    have hsplit : ∀ n, n % 16 ^ (w + 1) = 16 ^ w * (n / 16 ^ w % 16) + n % 16 ^ w := by
      intro n
      rw [Nat.pow_succ, Nat.mod_mul, Nat.add_comm]
    rw [hexText, hexText, List.cons_lt_cons_iff, ih, digitChar_lt _ (hdigit a) _ (hdigit b),
      digitChar_inj _ (hdigit a) _ (hdigit b), hsplit a, hsplit b, mul_add_lt_mul_add (hlow a) (hlow b)]

theorem hexText_inj {w a b : Nat} : hexText w a = hexText w b ↔ a % 16 ^ w = b % 16 ^ w := by
  induction w with
  | zero => simp [hexText, Nat.mod_one]
  | succ w ih =>
    have hdigit : ∀ n, n / 16 ^ w % 16 < 16 := fun n => Nat.mod_lt _ (by decide)
    have hsplit : ∀ n, n % 16 ^ (w + 1) = n % 16 ^ w + 16 ^ w * (n / 16 ^ w % 16) := by
      intro n
      rw [Nat.pow_succ, Nat.mod_mul]
    have hlow : ∀ n, n % 16 ^ w < 16 ^ w := fun n => Nat.mod_lt _ (Nat.pow_pos (by decide))
    rw [hexText, hexText, List.cons.injEq, ih, digitChar_inj _ (hdigit a) _ (hdigit b), hsplit a, hsplit b]
    constructor
    · intro h
      rw [h.1, h.2]
    · intro h
      have hmod := congrArg (· % 16 ^ w) h
      have hdiv := congrArg (· / 16 ^ w) h
      have hpos : 0 < 16 ^ w := Nat.pow_pos (by decide)
      rw [Nat.add_mul_mod_self_left, Nat.add_mul_mod_self_left, Nat.mod_mod, Nat.mod_mod] at hmod
      rw [Nat.add_mul_div_left _ _ hpos, Nat.add_mul_div_left _ _ hpos, Nat.div_eq_of_lt (hlow a),
        Nat.div_eq_of_lt (hlow b), Nat.zero_add, Nat.zero_add] at hdiv
      exact ⟨hdiv, hmod⟩

/-- Behind texts of one width, the rest is compared if they are equal. -/
theorem append_lt_append {xs ys u v : List Char} (h : xs.length = ys.length) :
    xs ++ u < ys ++ v ↔ xs < ys ∨ xs = ys ∧ u < v := by
  induction xs generalizing ys with
  | nil =>
    cases ys with
    | nil => simp
    | cons y ys => cases h
  | cons x xs ih =>
    cases ys with
    | nil => cases h
    | cons y ys =>
      rw [List.cons_append, List.cons_append, List.cons_lt_cons_iff, List.cons_lt_cons_iff,
        ih (Nat.succ.inj h), List.cons.injEq, and_or_left, or_assoc, and_assoc]

end Rapids.Lib
