import Mathlib.Data.Nat.Digits.Lemmas
import Mathlib.Data.List.TakeWhile

/-!
# Rapids.Lib.Radix

**Numerals converted in place.** A numeral in one base is read digit by digit,
most significant first, into a fixed array of digits of another base: each
digit multiplies the array by the first base and is carried in from its least
significant end. The array is a little-endian list here, so that the carry
runs with the recursion.

The array has a part in use, and a pass stops behind it as soon as there is
nothing left to carry. **`Holds`** is the invariant of the array between two
passes: it stands for a number, in digits, with zeros behind the part in use.
The conversion ends in `Nat.digits`, with which the statements are made.
-/

namespace Rapids.Lib

open Nat (ofDigits)

variable {b size a : Nat} {xs : List Nat}

/-! ### One pass -/

/-- Multiply the digits by `mul` and add the carry, from the `i`-th digit on. The
pass goes on while there is a carry or a digit in use; it returns the digits,
how far it went, and the carry it could not place. -/
def mulAdd (b mul length : Nat) : Nat → Nat → List Nat → List Nat × Nat × Nat
  | i, carry, [] => ([], i, carry)
  | i, carry, d :: ds =>
    if carry ≠ 0 ∨ i < length then
      let rest := mulAdd b mul length (i + 1) ((carry + mul * d) / b) ds
      ((carry + mul * d) % b :: rest.1, rest.2)
    else (d :: ds, i, carry)

section
variable {b mul length i carry : Nat} {ds : List Nat}

theorem mulAdd_cons (d : Nat) (h : carry ≠ 0 ∨ i < length) :
    mulAdd b mul length i carry (d :: ds) =
      ((carry + mul * d) % b :: (mulAdd b mul length (i + 1) ((carry + mul * d) / b) ds).1,
        (mulAdd b mul length (i + 1) ((carry + mul * d) / b) ds).2) := by
  rw [mulAdd, if_pos h]

theorem mulAdd_stop (h : ¬ (carry ≠ 0 ∨ i < length)) : mulAdd b mul length i carry ds = (ds, i, carry) := by
  cases ds with
  | nil => rfl
  | cons d ds => rw [mulAdd, if_neg h]

variable (b mul length i carry ds)

theorem mulAdd_length : (mulAdd b mul length i carry ds).1.length = ds.length := by
  induction ds generalizing i carry with
  | nil => rfl
  | cons d ds ih =>
    by_cases h : carry ≠ 0 ∨ i < length
    · rw [mulAdd_cons d h, List.length_cons, List.length_cons, ih (i + 1) _]
    · rw [mulAdd_stop h]

theorem mulAdd_digits (hb : 0 < b) (hds : ∀ d ∈ ds, d < b) :
    ∀ d ∈ (mulAdd b mul length i carry ds).1, d < b := by
  induction ds generalizing i carry with
  | nil => exact hds
  | cons d ds ih =>
    by_cases h : carry ≠ 0 ∨ i < length
    · rw [mulAdd_cons d h]
      intro x hx
      rcases List.mem_cons.mp hx with rfl | hx
      · exact Nat.mod_lt _ hb
      · exact ih (i + 1) _ (fun y hy => hds y (.tail _ hy)) x hx
    · rw [mulAdd_stop h]
      exact hds

/-- A pass goes at least as far as the digits in use, or to the end of the array. -/
theorem mulAdd_reach : i ≤ (mulAdd b mul length i carry ds).2.1 := by
  induction ds generalizing i carry with
  | nil => exact Nat.le_refl i
  | cons d ds ih =>
    by_cases h : carry ≠ 0 ∨ i < length
    · rw [mulAdd_cons d h]
      exact Nat.le_trans (Nat.le_succ i) (ih (i + 1) _)
    · rw [mulAdd_stop h]

/-- What a pass leaves, where all digits behind the part in use are zero: the
product, with the carry that was not placed, and zeros behind the part it went over. -/
theorem mulAdd_value (hzero : ∀ d ∈ ds.drop (length - i), d = 0) :
    ofDigits b (mulAdd b mul length i carry ds).1 +
        b ^ ds.length * (mulAdd b mul length i carry ds).2.2 = mul * ofDigits b ds + carry ∧
      ∀ d ∈ (mulAdd b mul length i carry ds).1.drop ((mulAdd b mul length i carry ds).2.1 - i), d = 0 := by
  induction ds generalizing i carry with
  | nil =>
    refine ⟨?_, fun d hd => ?_⟩
    · simp [mulAdd]
    · rw [mulAdd, List.drop_nil] at hd
      cases hd
  | cons d ds ih =>
    by_cases h : carry ≠ 0 ∨ i < length
    · have hrest : ∀ x ∈ ds.drop (length - (i + 1)), x = 0 := by
        intro x hx
        refine hzero x ?_
        by_cases hi : i < length
        · rwa [show length - i = length - (i + 1) + 1 by omega, List.drop_succ_cons]
        · rw [show length - (i + 1) = 0 by omega, List.drop_zero] at hx
          rw [show length - i = 0 by omega, List.drop_zero]
          exact .tail _ hx
      obtain ⟨hvalue, hbehind⟩ := ih (i + 1) ((carry + mul * d) / b) hrest
      have hreach := mulAdd_reach b mul length (i + 1) ((carry + mul * d) / b) ds
      rw [mulAdd_cons d h]
      generalize mulAdd b mul length (i + 1) ((carry + mul * d) / b) ds = r at hvalue hbehind hreach
      refine ⟨?_, ?_⟩
      · rw [Nat.ofDigits_cons, Nat.ofDigits_cons, List.length_cons]
        have hdiv := Nat.mod_add_div (carry + mul * d) b
        calc (carry + mul * d) % b + b * ofDigits b r.1 + b ^ (ds.length + 1) * r.2.2
            = (carry + mul * d) % b + b * (ofDigits b r.1 + b ^ ds.length * r.2.2) := by ring
          _ = (carry + mul * d) % b + b * ((carry + mul * d) / b) + mul * (b * ofDigits b ds) := by
              rw [hvalue]; ring
          _ = mul * (d + b * ofDigits b ds) + carry := by rw [hdiv]; ring
      · intro x hx
        rw [show r.2.1 - i = r.2.1 - (i + 1) + 1 by omega, List.drop_succ_cons] at hx
        exact hbehind x hx
    · rw [mulAdd_stop h]
      have hcarry : carry = 0 := by
        by_contra hc
        exact h (.inl hc)
      refine ⟨?_, ?_⟩
      · have hall : ∀ x ∈ d :: ds, x = 0 := by
          rwa [show length - i = 0 by omega, List.drop_zero] at hzero
        rw [List.eq_replicate_of_mem hall, Nat.ofDigits_replicate_zero, hcarry]
        simp
      · intro x hx
        rw [show i - i = 0 by omega, List.drop_zero] at hx
        rw [show length - i = 0 by omega, List.drop_zero] at hzero
        exact hzero x hx

end

/-! ### A whole numeral -/

/-- An array of digits, with the number of its digits in use. -/
structure Numeral where
  digits : List Nat
  length : Nat

/-- Read one more digit into the array. There is no result if the array is too
small for it. -/
def Numeral.push (b mul : Nat) (n : Numeral) (x : Nat) : Option Numeral :=
  let r := mulAdd b mul n.length 0 x n.digits
  if r.2.2 = 0 then some ⟨r.1, r.2.1⟩ else none

/-- The digits in use without leading zeros, most significant first. -/
def Numeral.leading (n : Numeral) : List Nat :=
  (n.digits.take n.length).reverse.dropWhile (· == 0)

/-- The array has `size` digits of base `b` and stands for the number `N`. -/
structure Numeral.Holds (b size N : Nat) (n : Numeral) : Prop where
  size : n.digits.length = size
  lt : ∀ d ∈ n.digits, d < b
  behind : ∀ d ∈ n.digits.drop n.length, d = 0
  value : ofDigits b n.digits = N

/-- The empty array stands for zero. -/
theorem Numeral.holds_zero (hb : 0 < b) (size : Nat) :
    Numeral.Holds b size 0 ⟨List.replicate size 0, 0⟩ where
  size := List.length_replicate
  lt d hd := by rw [List.eq_of_mem_replicate hd]; exact hb
  behind d hd := List.eq_of_mem_replicate (List.mem_of_mem_drop hd)
  value := Nat.ofDigits_replicate_zero

/-- One digit more, where the array has room for it. -/
theorem Numeral.Holds.push {mul N : Nat} {n : Numeral} (hb : 0 < b) (h : n.Holds b size N) (x : Nat)
    (hroom : mul * N + x < b ^ size) :
    ∃ n', n.push b mul x = some n' ∧ n'.Holds b size (mul * N + x) := by
  have hzero : ∀ d ∈ n.digits.drop (n.length - 0), d = 0 := h.behind
  obtain ⟨hvalue, hbehind⟩ := mulAdd_value b mul n.length 0 x n.digits hzero
  have hsize := mulAdd_length b mul n.length 0 x n.digits
  have hlt := mulAdd_digits b mul n.length 0 x n.digits hb h.lt
  rw [Numeral.push]
  generalize mulAdd b mul n.length 0 x n.digits = r at hvalue hbehind hsize hlt
  rw [h.value, h.size] at hvalue
  -- the carry that was not placed counts `b ^ size` or more
  have hcarry : r.2.2 = 0 := by
    by_contra hc
    have hge : b ^ size ≤ b ^ size * r.2.2 := Nat.le_mul_of_pos_right _ (Nat.pos_of_ne_zero hc)
    omega
  rw [hcarry, Nat.mul_zero, Nat.add_zero] at hvalue
  exact ⟨⟨r.1, r.2.1⟩, if_pos hcarry, ⟨hsize.trans h.size, hlt, hbehind, hvalue⟩⟩

/-- The number that digits of base `mul` stand for, read after a number that is
already there. -/
def horner (mul : Nat) (N : Nat) (xs : List Nat) : Nat := xs.foldl (fun n x => mul * n + x) N

theorem horner_cons (mul N x : Nat) (xs : List Nat) :
    horner mul N (x :: xs) = horner mul (mul * N + x) xs := rfl

theorem horner_eq (mul N : Nat) (xs : List Nat) :
    horner mul N xs = mul ^ xs.length * N + ofDigits mul xs.reverse := by
  induction xs generalizing N with
  | nil => simp [horner]
  | cons x xs ih =>
    rw [horner_cons, ih, Nat.ofDigits_reverse_cons, List.length_cons]
    ring

theorem le_horner {mul : Nat} (hmul : 0 < mul) (N : Nat) (xs : List Nat) : N ≤ horner mul N xs := by
  rw [horner_eq]
  exact Nat.le_trans (Nat.le_mul_of_pos_left N (Nat.pow_pos hmul)) (Nat.le_add_right _ _)

/-- A whole numeral is read if its number fits in the array. -/
theorem Numeral.Holds.pushAll {mul N : Nat} {n : Numeral} (hb : 0 < b) (hmul : 0 < mul)
    (h : n.Holds b size N) (xs : List Nat) (hroom : horner mul N xs < b ^ size) :
    ∃ n', xs.foldlM (Numeral.push b mul) n = some n' ∧ n'.Holds b size (horner mul N xs) := by
  induction xs generalizing n N with
  | nil => exact ⟨n, rfl, h⟩
  | cons x xs ih =>
    rw [horner_cons] at hroom ⊢
    obtain ⟨n₁, hpush, h1⟩ := h.push hb x (Nat.lt_of_le_of_lt (le_horner hmul _ xs) hroom)
    obtain ⟨n', hall, h'⟩ := ih h1 hroom
    refine ⟨n', ?_, h'⟩
    rw [List.foldlM_cons, hpush]
    exact hall

/-! ### The digits that come out -/

/-- Dropping zeros in front of the most significant digit. -/
theorem dropWhile_reverse_digits (hb : 1 < b) {ds : List Nat} (hlt : ∀ d ∈ ds, d < b) :
    ds.reverse.dropWhile (· == 0) = (Nat.digits b (ofDigits b ds)).reverse := by
  induction ds using List.reverseRecOn with
  | nil => simp
  | append_singleton ds d ih =>
    have hds : ∀ x ∈ ds, x < b := fun x hx => hlt x (List.mem_append_left _ hx)
    rw [List.reverse_append, List.reverse_singleton, List.singleton_append]
    by_cases hd : d = 0
    · rw [hd, List.dropWhile_cons, if_pos (by rfl), ih hds, Nat.ofDigits_append_zero]
    · rw [List.dropWhile_cons, if_neg (by simpa using hd),
        Nat.digits_ofDigits b hb (ds ++ [d]) hlt (fun _ => by rwa [List.getLast_append_singleton]),
        List.reverse_append, List.reverse_singleton, List.singleton_append]

/-- What the array stands for is what its leading digits say. -/
theorem Numeral.Holds.leading {N : Nat} {n : Numeral} (hb : 1 < b) (h : n.Holds b size N) :
    n.leading = (Nat.digits b N).reverse := by
  have hsplit : n.digits = n.digits.take n.length ++ List.replicate (n.digits.drop n.length).length 0 := by
    conv => lhs; rw [← List.take_append_drop n.length n.digits]
    rw [← List.eq_replicate_of_mem h.behind]
  have hvalue : ofDigits b (n.digits.take n.length) = N := by
    rw [← h.value]
    conv => rhs; rw [hsplit]
    rw [Nat.ofDigits_append_replicate_zero]
  rw [Numeral.leading,
    dropWhile_reverse_digits hb (fun d hd => h.lt d (List.mem_of_mem_take hd)), hvalue]

/-- **Conversion in place**: the digits read come out as the digits, in the other
base, of the number they stand for. -/
theorem convert_digits (b mul : Nat) (hb : 1 < b) (hmul : 0 < mul)
    (hroom : ofDigits mul xs.reverse < b ^ size) :
    (xs.foldlM (Numeral.push b mul) ⟨List.replicate size 0, 0⟩).map Numeral.leading =
      some (Nat.digits b (ofDigits mul xs.reverse)).reverse := by
  have hnumber : horner mul 0 xs = ofDigits mul xs.reverse := by
    rw [horner_eq, Nat.mul_zero, Nat.zero_add]
  obtain ⟨n', hall, h'⟩ := (Numeral.holds_zero (Nat.lt_of_succ_lt hb) size).pushAll
    (Nat.lt_of_succ_lt hb) hmul xs (by rwa [hnumber])
  rw [hall, Option.map_some, h'.leading hb, hnumber]

/-- The number of a numeral of `n` digits is below `b ^ n`. -/
theorem ofDigits_reverse_lt (hb : 1 < b) (hlt : ∀ x ∈ xs, x < b) :
    ofDigits b xs.reverse < b ^ xs.length := by
  have h := Nat.ofDigits_lt_base_pow_length hb fun x hx =>
    hlt x (List.mem_reverse.mp hx)
  rwa [List.length_reverse] at h

/-- Room for a numeral in another base, when the ratio of the digits' sizes is
bounded by `p / q`. -/
theorem pow_le_of_ratio {p q : Nat} (hq : 0 < q) (hb : 0 < b) (hratio : a ^ q ≤ b ^ p) (n : Nat) :
    a ^ n ≤ b ^ (n * p / q + 1) := by
  by_contra h
  have h := Nat.lt_of_not_le h
  have hpow : (b ^ (n * p / q + 1)) ^ q < (a ^ n) ^ q := Nat.pow_lt_pow_left h (Nat.ne_of_gt hq)
  have hle : (a ^ n) ^ q ≤ (b ^ (n * p / q + 1)) ^ q := by
    calc (a ^ n) ^ q = (a ^ q) ^ n := by rw [← Nat.pow_mul, ← Nat.pow_mul, Nat.mul_comm]
      _ ≤ (b ^ p) ^ n := Nat.pow_le_pow_left hratio n
      _ = b ^ (n * p) := by rw [← Nat.pow_mul, Nat.mul_comm]
      _ ≤ b ^ ((n * p / q + 1) * q) := by
          refine Nat.pow_le_pow_right hb ?_
          have := Nat.lt_mul_div_succ (n * p) hq
          rw [Nat.mul_comm q] at this
          omega
      _ = (b ^ (n * p / q + 1)) ^ q := Nat.pow_mul _ _ _
  omega

/-! ### Changing the base -/

/-- The numeral in another base: leading zeros are kept one by one, and the rest
is converted. -/
def rebase (a b : Nat) (xs : List Nat) : List Nat :=
  List.replicate (xs.takeWhile (· == 0)).length 0 ++
    (Nat.digits b (ofDigits a (xs.dropWhile (· == 0)).reverse)).reverse

/-- Zeros in front of a numeral that does not start with one. -/
theorem zeros_split {ys : List Nat} (z : Nat) (h : ys.head? ≠ some 0) :
    (List.replicate z 0 ++ ys).takeWhile (· == 0) = List.replicate z 0 ∧
      (List.replicate z 0 ++ ys).dropWhile (· == 0) = ys := by
  induction z with
  | zero =>
    cases ys with
    | nil => exact ⟨rfl, rfl⟩
    | cons y ys =>
      have hy : ¬ (y == 0) = true := by simpa using h
      rw [List.replicate_zero, List.nil_append, List.takeWhile_cons, List.dropWhile_cons,
        if_neg hy, if_neg hy]
      exact ⟨rfl, rfl⟩
  | succ z ih =>
    rw [List.replicate_succ, List.cons_append, List.takeWhile_cons, List.dropWhile_cons,
      if_pos (by rfl), if_pos (by rfl), ih.1, ih.2]
    exact ⟨rfl, rfl⟩

/-- A converted numeral does not start with a zero. -/
theorem digits_head_ne_zero (b n : Nat) : (Nat.digits b n).reverse.head? ≠ some 0 := by
  rw [List.head?_reverse]
  intro h
  by_cases hn : n = 0
  · rw [hn, Nat.digits_zero] at h
    cases h
  · have hne : Nat.digits b n ≠ [] := Nat.digits_ne_nil_iff_ne_zero.mpr hn
    rw [List.getLast?_eq_some_getLast hne] at h
    exact Nat.getLast_digit_ne_zero b hn (Option.some.inj h)

theorem dropWhile_zeros_head (xs : List Nat) : (xs.dropWhile (· == 0)).head? ≠ some 0 := by
  induction xs with
  | nil => simp
  | cons x xs ih =>
    rw [List.dropWhile_cons]
    split
    · exact ih
    · rename_i hx
      simpa using hx

theorem takeWhile_zeros (xs : List Nat) :
    xs.takeWhile (· == 0) = List.replicate (xs.takeWhile (· == 0)).length 0 :=
  List.eq_replicate_of_mem fun x hx => by simpa using List.mem_takeWhile_imp hx

/-- A numeral without leading zeros is the digits of its number. -/
theorem digits_of_numeral (hb : 1 < b) (hlt : ∀ x ∈ xs, x < b)
    (hhead : xs.head? ≠ some 0) : (Nat.digits b (ofDigits b xs.reverse)).reverse = xs := by
  rw [Nat.digits_ofDigits b hb xs.reverse (fun x hx => hlt x (List.mem_reverse.mp hx)),
    List.reverse_reverse]
  intro hne hzero
  apply hhead
  rw [← List.getLast?_reverse, List.getLast?_eq_some_getLast hne, hzero]

/-- **Nothing is lost** when a numeral is written in another base. -/
theorem rebase_rebase (ha : 1 < a) (hlt : ∀ x ∈ xs, x < a) :
    rebase b a (rebase a b xs) = xs := by
  have hzeros := zeros_split (xs.takeWhile (· == 0)).length
    (digits_head_ne_zero b (ofDigits a (xs.dropWhile (· == 0)).reverse))
  have hdigits := digits_of_numeral ha
    (fun x hx => hlt x ((List.dropWhile_sublist _).subset hx)) (dropWhile_zeros_head xs)
  rw [rebase, rebase, hzeros.1, hzeros.2, List.length_replicate, List.reverse_reverse,
    Nat.ofDigits_digits, hdigits, ← takeWhile_zeros]
  exact List.takeWhile_append_dropWhile

theorem rebase_lt (hb : 1 < b) (xs : List Nat) : ∀ y ∈ rebase a b xs, y < b := by
  intro y hy
  rcases List.mem_append.mp hy with hy | hy
  · rw [List.eq_of_mem_replicate hy]
    exact Nat.zero_lt_of_lt hb
  · exact Nat.digits_lt_base hb (List.mem_reverse.mp hy)

/-- How long a numeral gets in a smaller base. -/
theorem rebase_length_le (hb : 1 < b)
    (hroom : ofDigits a (xs.dropWhile (· == 0)).reverse < b ^ size) :
    (rebase a b xs).length ≤ xs.length + size := by
  rw [rebase, List.length_append, List.length_replicate, List.length_reverse]
  have hdigits := (Nat.digits_length_le_iff hb _).mpr hroom
  have hzeros := (List.takeWhile_sublist (fun x : Nat => x == 0) (l := xs)).length_le
  omega

end Rapids.Lib
