import Mathlib.Data.List.DropRight
import Rapids.Chain.MoneyText

/-!
# Rapids.Token.AmountText

**Token amounts as text** (`parse_string.cpp`, and the formats of `tokencore.cpp`).

`strToInt64` works on the text: it pads or cuts the decimals to eight, takes the dot
out and casts what is left as a whole. So a text is read as the number its digits
make up, or as 0.
-/

namespace Rapids.Token

open Rapids.Lib Rapids.Chain

/-! ### Writing -/

variable (n : Int) (str : List Char) (divisible : Bool)

def formatDivisibleMP (fSign : Bool) : List Char :=
  let str := coinText (if 0 < n then n else -n)
  if !fSign then str else if n < 0 then '-' :: str else '+' :: str

def formatDivisibleShortMP : List Char :=
  let str := (coinText (if 0 < n then n else -n)).rdropWhile (· == '0')
  if str.getLast? = some '.' then str.dropLast else str

def formatIndivisibleMP : List Char := intText n

/-! ### Reading -/

/-- `boost::lexical_cast<int64_t>`, 0 where it throws. -/
def castInt64 (text : List Char) : Int := (lexicalCast i64Min i64Max text).getD 0

def strToInt64 : Int :=
  if '-' ∈ str then 0
  else if divisible then
    let pos := (str.takeWhile (· ≠ '.')).length
    match str.dropWhile (· ≠ '.') with
    | [] => castInt64 (str ++ List.replicate 8 '0')
    | _ :: strRightOfDecimal =>
      if '.' ∈ strRightOfDecimal then 0
      else if str.length - pos < 9 then
        castInt64 ((str ++ List.replicate (8 - strRightOfDecimal.length) '0').filter (· ≠ '.'))
      else castInt64 ((str.take (pos + 9)).filter (· ≠ '.'))
  else castInt64 (str.takeWhile (· ≠ '.'))

/-- The digits of a text in the smallest unit: eight decimals, or none. -/
def shiftedDigits : List Char :=
  let decimals := (str.dropWhile (· ≠ '.')).drop 1
  (str.takeWhile (· ≠ '.') ++ if divisible then
    decimals.take 8 ++ List.replicate (8 - decimals.length) '0' else []).filter Char.isDigit

theorem castInt64_cases {text : List Char} (h : '-' ∉ text) :
    castInt64 text = 0 ∨ castInt64 text = digitsValue (text.filter Char.isDigit) ∧
      castInt64 text ≤ i64Max := by
  unfold castInt64 lexicalCast
  split_ifs with hcast
  · obtain ⟨-, hall, -, hhigh⟩ := hcast
    refine .inr ⟨?_, hhigh⟩
    have hd := List.all_eq_true.mp hall
    by_cases hplus : ∃ rest, text = '+' :: rest
    · obtain ⟨rest, rfl⟩ := hplus
      have hrest : ∀ c ∈ rest, c.isDigit = true := hd
      rw [List.filter_cons_of_neg (by decide), List.filter_eq_self.mpr hrest, Option.getD_some, atoi,
        readDigits, List.takeWhile_eq_self_iff.mpr hrest]
      rfl
    · have hsame : unsigned text = text := by
        unfold unsigned
        split
        · exact absurd (.head _) h
        · next rest => exact absurd ⟨rest, rfl⟩ hplus
        · rfl
      rw [hsame] at hd
      rw [List.filter_eq_self.mpr hd, Option.getD_some, atoi_of_digits hd]
      rfl
  · exact .inl rfl

theorem castInt64_digits {text : List Char} (hne : text ≠ []) (h : ∀ c ∈ text, c.isDigit = true)
    (hfits : (digitsValue text : Int) ≤ i64Max) : castInt64 text = digitsValue text := by
  have hcast : lexicalCast i64Min i64Max text = some (digitsValue text : Int) := by
    rw [lexicalCast, unsigned_of_digits h, atoi_of_digits h,
      if_pos ⟨hne, List.all_eq_true.mpr h, by unfold i64Min; omega, hfits⟩]
    rfl
  rw [castInt64, hcast, Option.getD_some]

/-- What is read is the number of the shifted digits, or 0. -/
theorem strToInt64_cases :
    strToInt64 str divisible = 0 ∨ strToInt64 str divisible = digitsValue (shiftedDigits str divisible) ∧
      strToInt64 str divisible ≤ i64Max := by
  have hcast : ∀ text : List Char, '-' ∉ str → (∀ c ∈ text, c ∈ str ∨ c = '0') →
      text.filter Char.isDigit = shiftedDigits str divisible →
      castInt64 text = 0 ∨ castInt64 text = digitsValue (shiftedDigits str divisible) ∧
        castInt64 text ≤ i64Max := fun text hneg hmem heq => by
    rw [← heq]
    exact castInt64_cases fun hc => (hmem _ hc).elim hneg (by decide)
  have hsplit := List.takeWhile_append_dropWhile (p := (· ≠ '.')) (l := str)
  have hzeros : ∀ k, (List.replicate k '0').filter Char.isDigit = List.replicate k '0' := fun k =>
    List.filter_eq_self.mpr fun c hc => by rw [List.eq_of_mem_replicate hc]; rfl
  have hdots : ∀ t : List Char, (t.filter (· ≠ '.')).filter Char.isDigit = t.filter Char.isDigit := fun t => by
    rw [List.filter_filter]
    refine List.filter_congr fun c _ => ?_
    by_cases hc : c = '.' <;> simp [hc]
  unfold strToInt64
  split_ifs with hneg hdiv
  · exact .inl rfl
  · subst hdiv
    cases hdot : str.dropWhile (· ≠ '.') with
    | nil =>
      refine hcast _ hneg (fun c hc => ?_) ?_
      · exact (List.mem_append.mp hc).imp_right List.eq_of_mem_replicate
      · rw [hdot, List.append_nil] at hsplit
        rw [shiftedDigits, hdot, hsplit, if_pos rfl]
        simp
    | cons c frac =>
      have hhead := List.head?_dropWhile_not (· ≠ '.') str
      rw [hdot] at hhead
      obtain rfl : c = '.' := by simpa using hhead
      rw [hdot] at hsplit
      have hlen := congrArg List.length hsplit
      rw [List.length_append, List.length_cons] at hlen
      have hshift : shiftedDigits str true = (str.takeWhile (· ≠ '.') ++
          (frac.take 8 ++ List.replicate (8 - frac.length) '0')).filter Char.isDigit := by
        rw [shiftedDigits, hdot, if_pos rfl]
        rfl
      dsimp only
      split_ifs with htwo hshort
      · exact .inl rfl
      · refine hcast _ hneg (fun c hc => ?_) ?_
        · exact (List.mem_append.mp (List.mem_filter.mp hc).1).imp_right List.eq_of_mem_replicate
        · rw [hdots, hshift, List.take_of_length_le (by omega)]
          conv_lhs => rw [← hsplit]
          simp
      · refine hcast _ hneg (fun c hc => .inl (List.take_subset _ _ (List.mem_filter.mp hc).1)) ?_
        have htake : ∀ whole : List Char, whole ++ '.' :: frac = str →
            str.take (whole.length + 9) = whole ++ '.' :: frac.take 8 := by
          rintro whole rfl
          simp [List.take_append]
        rw [hdots, hshift, htake _ hsplit, show 8 - frac.length = 0 by omega]
        simp
  · refine hcast _ hneg (fun c hc => .inl (List.takeWhile_subset _ hc)) ?_
    simp [shiftedDigits, hdiv]

/-! ### Written amounts -/

/-- The text of a number of whole coins, with at most eight decimals or without a dot. -/
theorem strToInt64_decimal {whole frac text : List Char} {n : Nat} (hne : whole ≠ [])
    (hw : ∀ c ∈ whole, c.isDigit = true) (hf : ∀ c ∈ frac, c.isDigit = true) (hlen : frac.length ≤ 8)
    (htext : text = whole ++ '.' :: frac ∨ frac = [] ∧ text = whole)
    (hval : digitsValue (whole ++ (frac ++ List.replicate (8 - frac.length) '0')) = n)
    (hn : (n : Int) ≤ i64Max) : strToInt64 text true = n := by
  have hnot : ∀ (d : Char) (l : List Char), d.isDigit = false → (∀ c ∈ l, c.isDigit = true) → d ∉ l :=
    fun d l hd hl hm => by
      rw [hl d hm] at hd
      cases hd
  have hdot : ∀ l : List Char, (∀ c ∈ l, c.isDigit = true) → ∀ c ∈ l, decide (c ≠ '.') = true :=
    fun l hl c hc => decide_eq_true fun heq => hnot '.' l (by decide) hl (heq ▸ hc)
  have hcast : castInt64 (whole ++ (frac ++ List.replicate (8 - frac.length) '0')) = n := by
    rw [castInt64_digits (by simp [hne]) ?_ (by rw [hval]; exact hn), hval]
    intro c hc
    simp only [List.mem_append, List.mem_replicate] at hc
    rcases hc with hc | hc | ⟨-, rfl⟩
    · exact hw c hc
    · exact hf c hc
    · decide
  have hfilter : ∀ l : List Char, (∀ c ∈ l, c.isDigit = true) → l.filter (· ≠ '.') = l := fun l hl =>
    List.filter_eq_self.mpr (hdot l hl)
  have hzeros : ∀ k, ∀ c ∈ List.replicate k '0', c.isDigit = true := fun k c hc => by
    rw [List.eq_of_mem_replicate hc]
    decide
  unfold strToInt64
  rcases htext with rfl | ⟨rfl, rfl⟩
  · have hneg : '-' ∉ whole ++ '.' :: frac := by
      simp [hnot '-' whole (by decide) hw, hnot '-' frac (by decide) hf]
    rw [if_neg hneg, if_pos rfl, List.takeWhile_append_of_pos (hdot whole hw),
      List.dropWhile_append_of_pos (hdot whole hw), List.takeWhile_cons_of_neg (by decide),
      List.dropWhile_cons_of_neg (by decide)]
    dsimp only
    rw [if_neg (hnot '.' frac (by decide) hf)]
    split_ifs with hshort
    · rw [List.filter_append, List.filter_append, hfilter _ hw, List.filter_cons_of_neg (by decide),
        hfilter _ hf, hfilter _ (hzeros _), List.append_assoc]
      exact hcast
    · simp only [List.length_append, List.length_cons, List.append_nil] at hshort
      rw [show 8 - frac.length = 0 by omega, List.replicate_zero, List.append_nil] at hcast
      rw [List.take_of_length_le (by simp; omega), List.filter_append, hfilter _ hw,
        List.filter_cons_of_neg (by decide), hfilter _ hf]
      exact hcast
  · rw [if_neg (hnot '-' text (by decide) hw), if_pos rfl,
      List.dropWhile_eq_nil_iff.mpr (hdot text hw)]
    exact hcast

/-- A text of eight decimals, its last zeros cut off. -/
theorem rdropWhile_coinText (n : Nat) : ∃ kept, (∀ c ∈ kept, c.isDigit = true) ∧ kept.length ≤ 8 ∧
    (coinText n).rdropWhile (· == '0') = Nat.toDigits 10 (n / 100000000) ++ '.' :: kept ∧
    kept ++ List.replicate (8 - kept.length) '0' = decText 8 (n % 100000000) := by
  have htext : (coinText n).reverse =
      (decText 8 (n % 100000000)).reverse ++ '.' :: (Nat.toDigits 10 (n / 100000000)).reverse := by
    simp only [coinText, coin, List.reverse_append, List.reverse_cons, List.append_assoc]
    rfl
  have hdigits : ∀ c ∈ (decText 8 (n % 100000000)).reverse, c.isDigit = true := fun c hc =>
    decText_isDigit (List.mem_reverse.mp hc)
  have hlen : (decText 8 (n % 100000000)).reverse.length = 8 := by rw [List.length_reverse, length_decText]
  rw [← List.reverse_reverse (decText 8 _), List.rdropWhile, htext]
  generalize (decText 8 (n % 100000000)).reverse = l at hdigits hlen
  have hsplit := List.takeWhile_append_dropWhile (p := (· == '0')) (l := l)
  have hzeros : l.takeWhile (· == '0') = List.replicate (l.takeWhile (· == '0')).length '0' :=
    List.eq_replicate_iff.mpr ⟨rfl, fun c hc => by simpa using List.mem_takeWhile_imp hc⟩
  have hsum := congrArg List.length hsplit
  rw [List.length_append, hlen] at hsum
  refine ⟨(l.dropWhile (· == '0')).reverse, fun c hc => ?_, by simp; omega, ?_, ?_⟩
  · exact hdigits c (List.dropWhile_subset _ (List.mem_reverse.mp hc))
  · rw [List.dropWhile_append]
    split_ifs with hempty
    · rw [List.isEmpty_iff.mp hempty]
      simp
    · simp
  · conv_rhs => rw [← hsplit, List.reverse_append, hzeros, List.reverse_replicate]
    rw [List.length_reverse, ← hsum, Nat.add_sub_cancel]

/-- Every text of an amount is read as the amount, and what is read of any text is an amount, and 0
where its digits make up more. -/
theorem amount_round_trip :
    (∀ n : Int, 0 ≤ n → n ≤ i64Max → strToInt64 (formatDivisibleMP n false) true = n ∧
      strToInt64 (formatDivisibleShortMP n) true = n ∧ strToInt64 (formatIndivisibleMP n) false = n) ∧
    ∀ str divisible, 0 ≤ strToInt64 str divisible ∧ strToInt64 str divisible ≤ i64Max ∧
      (i64Max < digitsValue (shiftedDigits str divisible) → strToInt64 str divisible = 0) := by
  constructor
  · intro n h0 hn
    obtain ⟨n, rfl⟩ := Int.eq_ofNat_of_zero_le h0
    have hval : digitsValue (Nat.toDigits 10 (n / 100000000) ++ decText 8 (n % 100000000)) = n := by
      rw [digitsValue, Nat.ofDigitChars_append, Nat.ofDigitChars_ten_toDigits, ofDigitChars_decText]
      omega
    have hw : ∀ c ∈ Nat.toDigits 10 (n / 100000000), c.isDigit = true := fun c hc => toDigits_isDigit hc
    have habs : (if 0 < (n : Int) then (n : Int) else -n) = n := by split_ifs <;> omega
    refine ⟨?_, ?_, ?_⟩
    · rw [formatDivisibleMP, habs]
      refine strToInt64_decimal Nat.toDigits_ne_nil hw (fun c hc => decText_isDigit hc)
        (length_decText 8 (n % 100000000)).le (.inl rfl) ?_ hn
      rw [length_decText, Nat.sub_self, List.replicate_zero, List.append_nil, hval]
    · obtain ⟨kept, hkept, hlen, hdrop, hfill⟩ := rdropWhile_coinText n
      rw [formatDivisibleShortMP, habs, hdrop]
      refine strToInt64_decimal Nat.toDigits_ne_nil hw hkept hlen ?_ (by rw [hfill, hval]) hn
      rcases List.eq_nil_or_concat kept with rfl | ⟨front, c, rfl⟩
      · exact .inr ⟨rfl, by simp⟩
      · have hc : c ≠ '.' := fun heq => absurd (hkept '.' (by simp [heq])) (by decide)
        left
        rw [List.concat_eq_append, ← List.cons_append, ← List.append_assoc, List.getLast?_concat,
          if_neg (by simpa using hc)]
    · have hneg : '-' ∉ intText n := fun hm => absurd (toDigits_isDigit hm) (by decide)
      have hdots : ∀ c ∈ intText n, decide (c ≠ '.') = true := fun c hc => decide_eq_true fun heq =>
        absurd (toDigits_isDigit (heq ▸ hc)) (by decide)
      rw [formatIndivisibleMP, strToInt64, if_neg hneg, if_neg (by decide),
        List.takeWhile_eq_self_iff.mpr hdots, castInt64,
        lexicalCast_intText (by unfold i64Min; omega) hn, Option.getD_some]
  · intro str divisible
    have hmax : (0 : Int) ≤ i64Max := by decide
    rcases strToInt64_cases str divisible with h | ⟨h, hle⟩
    · rw [h]
      exact ⟨le_rfl, hmax, fun _ => rfl⟩
    · refine ⟨by rw [h]; omega, hle, fun hgt => ?_⟩
      rw [h] at hle
      omega

end Rapids.Token
