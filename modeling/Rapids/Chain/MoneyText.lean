import Rapids.Chain.Connect
import Rapids.Lib.Text

/-!
# Rapids.Chain.MoneyText

**Coin amounts as text** (`utilmoneystr.cpp`).

`formatMoney` writes eight decimals and cuts zeros off the end, to two decimals at
least. `parseMoney` reads a C string with blanks around it. It takes at most ten
digits before the dot, so amounts of 10^10 coins and more, which the main network
has, are written and not read again.
-/

namespace Rapids.Chain

open Rapids.Lib

/-! ### Writing -/

/-- `strprintf("%d.%08d", quotient, remainder)` -/
def coinText (n_abs : Int) : List Char :=
  intText (n_abs / coin) ++ '.' :: decText 8 (n_abs % coin).toNat

/-- Cut zeros off the end of a text, given backwards, as long as a digit stands two
places before. -/
def trimZeros : List Char → List Char
  | '0' :: b :: c :: rest => if c.isDigit then trimZeros (b :: c :: rest) else '0' :: b :: c :: rest
  | text => text

def formatMoney (n : Int) (fPlus : Bool) : List Char :=
  let str := (trimZeros (coinText (if 0 < n then n else -n)).reverse).reverse
  if n < 0 then '-' :: str else if fPlus && 0 < n then '+' :: str else str

/-! ### Reading -/

/-- `isspace` in the C locale. -/
def isspace (c : Char) : Bool := c == ' ' || decide ('\t' ≤ c ∧ c ≤ '\r')

/-- The loop over the decimals: what they add to `nUnits`, and the text behind them. -/
def unitsLoop (nMult nUnits : Int) : List Char → Int × List Char
  | [] => (nUnits, [])
  | c :: p =>
    if c.isDigit ∧ 0 < nMult then
      unitsLoop (nMult / 10) (nUnits + nMult * (c.toNat - '0'.toNat : Nat)) p
    else (nUnits, c :: p)

/-- The first loop: `strWhole`, `nUnits` and the text behind the number. -/
def wholeLoop (strWhole : List Char) : List Char → Option (List Char × Int × List Char)
  | [] => some (strWhole, 0, [])
  | c :: p =>
    if c = '.' then some (strWhole, unitsLoop 10000000 0 p)
    else if isspace c then some (strWhole, 0, c :: p)
    else if !c.isDigit then none
    else wholeLoop (strWhole ++ [c]) p

def parseMoney (str : List Char) : Option Int :=
  -- `str.c_str()` ends at the first zero
  match wholeLoop [] ((str.takeWhile (· ≠ '\x00')).dropWhile isspace) with
  | none => none
  | some (strWhole, nUnits, p) =>
    if !p.all isspace then none
    else if 10 < strWhole.length then none
    else if nUnits < 0 ∨ coin < nUnits then none
    else some (toI64 (toI64 (atoi strWhole * coin) + nUnits))

/-! ### Decimal numbers -/

/-- The value of some digits. -/
def digitsValue (digits : List Char) : Nat := Nat.ofDigitChars 10 digits 0

/-- A text is a number with at most eight decimals, blanks around it, and has this
value in the smallest unit. -/
def IsMoney (text : List Char) (n : Int) : Prop :=
  ∃ before whole frac after, (∀ c ∈ before ++ after, isspace c = true) ∧
    (∀ c ∈ whole ++ frac, c.isDigit = true) ∧ frac.length ≤ 8 ∧
    (text = before ++ (whole ++ '.' :: (frac ++ after)) ∨
      frac = [] ∧ text = before ++ (whole ++ after)) ∧
    n = digitsValue whole * coin + digitsValue frac * 10 ^ (8 - frac.length)

theorem isspace_of_isDigit {c : Char} (h : c.isDigit = true) :
    c ≠ '.' ∧ c ≠ '\x00' ∧ isspace c = false := by
  have hlow : 48 ≤ c.toNat := (Char.isDigit_iff_toNat.mp h).1
  have hne : ∀ d : Char, d.toNat < 48 → c ≠ d := fun d hd heq => by
    rw [heq] at hlow
    omega
  have hhigh : ¬ c ≤ '\r' := fun hle => by
    have hle : c.toNat ≤ 13 := hle
    omega
  exact ⟨hne _ (by decide), hne _ (by decide), by simp [isspace, hhigh, hne ' ' (by decide)]⟩

/-- The loop over the decimals takes digits until the multiplier is 0. -/
theorem unitsLoop_spec (k : Nat) (nUnits : Int) (p : List Char) :
    ∃ frac rest, p = frac ++ rest ∧ (∀ c ∈ frac, c.isDigit = true) ∧ frac.length ≤ k ∧
      (frac.length = k ∨ ∀ c ∈ rest.head?, c.isDigit = false) ∧
      unitsLoop (10 ^ k / 10 : Nat) nUnits p =
        (nUnits + digitsValue frac * 10 ^ (k - frac.length), rest) := by
  induction p generalizing k nUnits with
  | nil => exact ⟨[], [], rfl, by simp, by simp, by simp, by simp [unitsLoop, digitsValue]⟩
  | cons c p ih =>
    cases k with
    | zero => exact ⟨[], c :: p, rfl, by simp, by simp, by simp, by simp [unitsLoop, digitsValue]⟩
    | succ k =>
      have hmult : 10 ^ (k + 1) / 10 = 10 ^ k := by rw [Nat.pow_succ, Nat.mul_div_cancel _ (by decide)]
      rw [hmult, unitsLoop]
      by_cases hc : c.isDigit = true
      · obtain ⟨frac, rest, rfl, hfrac, hlen, hend, hloop⟩ := ih k (nUnits + (10 ^ k : Nat) * (c.toNat - '0'.toNat : Nat))
        refine ⟨c :: frac, rest, rfl, by simpa [hc] using hfrac, by simpa using hlen, by simpa using hend, ?_⟩
        have hpow : 10 ^ k = 10 ^ frac.length * 10 ^ (k - frac.length) := by
          rw [← Nat.pow_add, Nat.add_sub_cancel' hlen]
        have hcast : ((10 ^ k : Nat) : Int) / 10 = (10 ^ k / 10 : Nat) := (Int.natCast_ediv _ _).symm
        rw [if_pos ⟨hc, by exact_mod_cast Nat.pow_pos (by decide)⟩, hcast, hloop]
        simp only [digitsValue, Nat.ofDigitChars_cons, List.length_cons, Nat.add_sub_add_right,
          Prod.mk.injEq, and_true]
        rw [@Nat.ofDigitChars_eq_ofDigitChars_zero _ (10 * 0 + _)]
        push_cast [hpow]
        ring
      · exact ⟨[], c :: p, rfl, by simp, by simp, by simp [hc], by simp [hc, digitsValue]⟩

theorem wholeLoop_append {whole : List Char} (strWhole p : List Char)
    (h : ∀ c ∈ whole, c.isDigit = true) :
    wholeLoop strWhole (whole ++ p) = wholeLoop (strWhole ++ whole) p := by
  induction whole generalizing strWhole with
  | nil => simp
  | cons c whole ih =>
    have hc := h c (.head _)
    obtain ⟨hdot, -, hblank⟩ := isspace_of_isDigit hc
    rw [List.cons_append, wholeLoop, if_neg hdot, hblank, if_neg (by decide), hc, if_neg (by decide),
      ih _ fun c' hc' => h c' (List.mem_cons_of_mem c hc')]
    simp

theorem wholeLoop_cases {strWhole p strWhole' rest : List Char} {nUnits : Int}
    (h : wholeLoop strWhole p = some (strWhole', nUnits, rest)) :
    ∃ whole tail, p = whole ++ tail ∧ (∀ c ∈ whole, c.isDigit = true) ∧ strWhole' = strWhole ++ whole ∧
      (nUnits = 0 ∧ rest = tail ∨ ∃ q, tail = '.' :: q ∧ unitsLoop 10000000 0 q = (nUnits, rest)) := by
  induction p generalizing strWhole with
  | nil =>
    cases h
    exact ⟨[], [], rfl, by simp, by simp, .inl ⟨rfl, rfl⟩⟩
  | cons c p ih =>
    rw [wholeLoop] at h
    split_ifs at h with hdot hblank hdigit
    · exact ⟨[], c :: p, rfl, by simp, by simp_all, .inr ⟨p, by rw [hdot], by simp_all⟩⟩
    · cases h
      exact ⟨[], c :: p, rfl, by simp, by simp, .inl ⟨rfl, rfl⟩⟩
    · obtain ⟨whole, tail, rfl, hwhole, rfl, hend⟩ := ih h
      have hc : c.isDigit = true := by simpa using hdigit
      exact ⟨c :: whole, tail, rfl, by simpa [hc] using hwhole, by simp, hend⟩

theorem digitsValue_lt {l : List Char} (h : ∀ c ∈ l, c.isDigit = true) :
    digitsValue l < 10 ^ l.length := by
  induction l with
  | nil => decide
  | cons c l ih =>
    have hc : c.toNat ≤ 57 := (Char.isDigit_iff_toNat.mp (h c (.head _))).2
    have hl := ih fun c hc => h c (.tail _ hc)
    have hzero : '0'.toNat = 48 := rfl
    have hd : 10 ^ l.length * (10 * 0 + (c.toNat - '0'.toNat)) ≤ 10 ^ l.length * 9 :=
      Nat.mul_le_mul_left _ (by omega)
    unfold digitsValue at hl ⊢
    rw [Nat.ofDigitChars_cons, Nat.ofDigitChars_eq_ofDigitChars_zero, List.length_cons, Nat.pow_succ]
    omega

/-- The value of at most ten digits and eight decimals fits. -/
theorem value_fits {whole frac : List Char} (hw : ∀ c ∈ whole, c.isDigit = true)
    (hf : ∀ c ∈ frac, c.isDigit = true) (hwl : whole.length ≤ 10) (hfl : frac.length ≤ 8) :
    digitsValue whole < 10000000000 ∧ digitsValue frac * 10 ^ (8 - frac.length) < 100000000 := by
  constructor
  · exact Nat.lt_of_lt_of_le (digitsValue_lt hw) (Nat.pow_le_pow_right (by decide) hwl)
  · calc digitsValue frac * 10 ^ (8 - frac.length)
        < 10 ^ frac.length * 10 ^ (8 - frac.length) :=
          Nat.mul_lt_mul_of_pos_right (digitsValue_lt hf) (Nat.pow_pos (by decide))
      _ = 100000000 := by rw [← Nat.pow_add, Nat.add_sub_cancel' hfl]

theorem result_eq {whole : List Char} {units : Nat} (hw : ∀ c ∈ whole, c.isDigit = true)
    (hlt : digitsValue whole < 10000000000) (hunits : units < 100000000) :
    toI64 (toI64 (atoi whole * coin) + units) = digitsValue whole * coin + units ∧
      InI64 (digitsValue whole * coin + units) := by
  have hin : InI64 (digitsValue whole * coin + units) := by
    unfold InI64 coin i64Min i64Max
    omega
  rw [toI64_toI64_add, atoi_of_digits hw]
  exact ⟨toI64_of_inI64 hin, hin⟩

/-- What is accepted is a decimal number and its value. -/
theorem parseMoney_exact {str : List Char} {n : Int} (h : parseMoney str = some n) :
    IsMoney (str.takeWhile (· ≠ '\x00')) n ∧ InI64 n := by
  unfold parseMoney at h
  generalize str.takeWhile (· ≠ '\x00') = text at h ⊢
  have hblank : ∀ c ∈ text.takeWhile isspace, isspace c = true := fun c => List.mem_takeWhile_imp
  have hsplit := List.takeWhile_append_dropWhile (p := isspace) (l := text)
  cases hloop : wholeLoop [] (text.dropWhile isspace) with
  | none => simp [hloop] at h
  | some r =>
    obtain ⟨whole, u, rest⟩ := r
    simp only [hloop] at h
    split_ifs at h with hrest hlen hunits
    obtain ⟨_, tail, htail, hwhole, rfl, hend⟩ := wholeLoop_cases hloop
    have hafter : ∀ c ∈ rest, isspace c = true := by simpa using hrest
    have hlen : whole.length ≤ 10 := by simpa using hlen
    -- the decimals, if there are any
    obtain ⟨frac, hfrac, hfl, htext, hu⟩ : ∃ frac : List Char, (∀ c ∈ frac, c.isDigit = true) ∧
        frac.length ≤ 8 ∧ (tail = '.' :: (frac ++ rest) ∨ frac = [] ∧ tail = rest) ∧
        u = (digitsValue frac * 10 ^ (8 - frac.length) : Nat) := by
      rcases hend with ⟨rfl, rfl⟩ | ⟨q, rfl, hq⟩
      · exact ⟨[], by simp, by simp, .inr ⟨rfl, rfl⟩, rfl⟩
      · obtain ⟨frac, rest', rfl, hfrac, hfl, -, hunits⟩ := unitsLoop_spec 8 0 q
        cases hq.symm.trans hunits
        exact ⟨frac, hfrac, hfl, .inl rfl, by push_cast; omega⟩
    obtain ⟨hw, hf⟩ := value_fits hwhole hfrac hlen hfl
    obtain ⟨hval, hin⟩ := result_eq hwhole hw hf
    cases h
    rw [hu, hval]
    refine ⟨⟨text.takeWhile isspace, whole, frac, rest, ?_, ?_, hfl, ?_, by push_cast; rfl⟩, hin⟩
    · exact List.forall_mem_append.mpr ⟨hblank, hafter⟩
    · exact List.forall_mem_append.mpr ⟨hwhole, hfrac⟩
    · rw [← hsplit, htail]
      rcases htext with rfl | ⟨rfl, rfl⟩
      · exact .inl (by simp [← htail, hsplit])
      · exact .inr ⟨rfl, by simp [← htail, hsplit]⟩

/-! ### Written amounts -/

theorem trimZeros_spec (behind : List Char) {l : List Char} (hl : ∀ c ∈ l, c.isDigit = true)
    (hlen : 2 ≤ l.length) : ∃ k kept, l = List.replicate k '0' ++ kept ∧
      trimZeros (l ++ '.' :: behind) = kept ++ '.' :: behind := by
  induction l with
  | nil => exact absurd hlen (by decide)
  | cons a l ih =>
    rcases l with _ | ⟨b, _ | ⟨c, l⟩⟩
    · simp at hlen
    · exact ⟨0, [a, b], rfl, by by_cases ha : a = '0' <;> simp [trimZeros, ha]⟩
    · by_cases ha : a = '0'
      · obtain ⟨k, kept, hk, htrim⟩ := ih (fun x hx => hl x (List.mem_cons_of_mem a hx)) (by simp)
        refine ⟨k + 1, kept, by rw [ha, hk]; rfl, ?_⟩
        rw [← htrim, ha]
        simp [trimZeros, hl c (by simp)]
      · exact ⟨0, a :: b :: c :: l, rfl, by simp [trimZeros, ha]⟩

/-- The text of an amount: its whole coins, and its decimals without the zeros cut off. -/
theorem formatMoney_eq {n : Nat} : ∃ frac, (∀ c ∈ frac, c.isDigit = true) ∧ frac.length ≤ 8 ∧
    formatMoney n false = Nat.toDigits 10 (n / 100000000) ++ '.' :: frac ∧
    digitsValue frac * 10 ^ (8 - frac.length) = n % 100000000 := by
  have hdigits : ∀ c ∈ (decText 8 (n % 100000000)).reverse, c.isDigit = true := fun c hc =>
    decText_isDigit (List.mem_reverse.mp hc)
  obtain ⟨k, kept, hsplit, htrim⟩ := trimZeros_spec (Nat.toDigits 10 (n / 100000000)).reverse hdigits
    (by rw [List.length_reverse, length_decText]; decide)
  have hfrac : decText 8 (n % 100000000) = kept.reverse ++ List.replicate k '0' := by
    rw [← List.reverse_reverse (decText 8 _), hsplit]
    simp
  have hlen : kept.reverse.length + k = 8 := by
    have h := congrArg List.length hfrac
    rw [length_decText, List.length_append, List.length_replicate] at h
    exact h.symm
  refine ⟨kept.reverse, fun c hc => hdigits c (by simp_all), by omega, ?_, ?_⟩
  · have habs : (if 0 < (n : Int) then (n : Int) else -n) = n := by split_ifs <;> omega
    have htext : (coinText n).reverse =
        (decText 8 (n % 100000000)).reverse ++ '.' :: (Nat.toDigits 10 (n / 100000000)).reverse := by
      simp only [coinText, coin, List.reverse_append, List.reverse_cons, List.append_assoc]
      rfl
    unfold formatMoney
    rw [habs, htext, htrim, if_neg (by omega)]
    simp
  · have hval := ofDigitChars_decText 8 (n % 100000000) 0
    rw [hfrac, Nat.ofDigitChars_append, Nat.ofDigitChars_replicate_zero] at hval
    rw [show 8 - kept.reverse.length = k by omega, digitsValue, Nat.mul_comm, hval]
    omega

/-- A written amount is read again as long as it has ten digits before the dot at most. -/
theorem parseMoney_formatMoney (n : Nat) :
    parseMoney (formatMoney n false) = if n < 1000000000000000000 then some (n : Int) else none := by
  obtain ⟨frac, hfrac, hfl, htext, hval⟩ := formatMoney_eq
  have hwhole : ∀ c ∈ Nat.toDigits 10 (n / 100000000), c.isDigit = true := fun c hc =>
    toDigits_isDigit hc
  have hread : (((Nat.toDigits 10 (n / 100000000) ++ '.' :: frac).takeWhile (· ≠ '\x00')).dropWhile isspace) =
      Nat.toDigits 10 (n / 100000000) ++ '.' :: frac := by
    rw [List.takeWhile_eq_self_iff.mpr]
    · obtain ⟨c, rest, hcons⟩ := List.exists_cons_of_ne_nil (Nat.toDigits_ne_nil)
      rw [hcons, List.cons_append, List.dropWhile_cons_of_neg]
      rw [(isspace_of_isDigit (hwhole c (by simp [hcons]))).2.2]
      decide
    · intro c hc
      rw [List.mem_append, List.mem_cons] at hc
      rcases hc with hc | rfl | hc
      · exact decide_eq_true (isspace_of_isDigit (hwhole c hc)).2.1
      · decide
      · exact decide_eq_true (isspace_of_isDigit (hfrac c hc)).2.1
  obtain ⟨frac', rest, rfl, -, hfl', hend, hunits⟩ := unitsLoop_spec 8 0 frac
  have hrest : rest = [] := by
    rcases hend with hend | hend
    · rw [List.length_append, hend] at hfl
      exact List.eq_nil_of_length_eq_zero (by omega)
    · cases rest with
      | nil => rfl
      | cons c rest =>
        have hc := hfrac c (by simp)
        rw [hend c rfl] at hc
        cases hc
  subst hrest
  rw [List.append_nil] at hunits hval htext hread
  have hloop : wholeLoop [] (Nat.toDigits 10 (n / 100000000) ++ '.' :: frac') =
      some (Nat.toDigits 10 (n / 100000000), ((n % 100000000 : Nat) : Int), []) := by
    rw [wholeLoop_append _ _ hwhole, wholeLoop, if_pos rfl]
    exact congrArg (fun r => some (_, r)) (hunits.trans (by rw [← hval]; push_cast; simp))
  have hlen := Nat.length_toDigits_le_iff (b := 10) (n := n / 100000000) (k := 10) (by decide) (by decide)
  rw [parseMoney, htext, hread, hloop]
  simp only [List.all_nil, Bool.not_true, Bool.false_eq_true, if_false]
  by_cases hn : n < 1000000000000000000
  · have hw : digitsValue (Nat.toDigits 10 (n / 100000000)) = n / 100000000 := Nat.ofDigitChars_ten_toDigits
    have hval := (@result_eq _ (n % 100000000) hwhole (by omega) (by omega)).1
    rw [if_neg (by omega), if_neg (by unfold coin; omega), if_pos hn, hval, hw]
    congr 1
    unfold coin
    omega
  · rw [if_pos (by omega), if_neg hn]

/-- An amount of the main network is read from its text just where it is below 10^10 coins. Every
accepted text is a decimal number with at most eight decimals, and the result is its value. -/
theorem money_round_trip_iff (n : Int) (str : List Char) :
    (0 ≤ n → n ≤ Network.main.maxMoneyOut →
      (parseMoney (formatMoney n false) = some n ↔ n < 10000000000 * coin)) ∧
    ∀ m, parseMoney str = some m → IsMoney (str.takeWhile (· ≠ '\x00')) m ∧ InI64 m := by
  refine ⟨fun h0 _ => ?_, fun m h => parseMoney_exact h⟩
  obtain ⟨n, rfl⟩ := Int.eq_ofNat_of_zero_le h0
  rw [parseMoney_formatMoney]
  unfold coin
  split_ifs with hn
  · exact iff_of_true rfl (by omega)
  · exact iff_of_false (by simp) (by omega)

theorem money_not_read : 10000000000 * coin ≤ Network.main.maxMoneyOut ∧
    parseMoney (formatMoney (10000000000 * coin) false) = none :=
  ⟨by decide, parseMoney_formatMoney 1000000000000000000⟩

end Rapids.Chain
