import Mathlib.Data.Nat.Digits.Lemmas

/-!
# Rapids.Lib.Limbs

**Numbers in words.** A number of fixed width is a list of words to a base, the lowest first, and
`Nat.ofDigits` is what it stands for.

`mulAssign` is long multiplication that drops what does not fit: row by row, each row with its own
carry, and no row goes past the last word. `ofDigits_mulAssign` says that this is the product modulo
the number of values that the width has.
-/

namespace Rapids.Lib

/-- The lowest words of a number. -/
def toLimbs (base : Nat) : Nat → Nat → List Nat
  | 0, _ => []
  | width + 1, v => v % base :: toLimbs base width (v / base)

variable (base width v : Nat)

@[simp] theorem length_toLimbs : (toLimbs base width v).length = width := by
  induction width generalizing v with
  | zero => rfl
  | succ width ih => rw [toLimbs, List.length_cons, ih]

theorem ofDigits_toLimbs : Nat.ofDigits base (toLimbs base width v) = v % base ^ width := by
  induction width generalizing v with
  | zero => simp [toLimbs, Nat.mod_one]
  | succ width ih => rw [toLimbs, Nat.ofDigits_cons, ih, Nat.pow_succ', Nat.mod_mul]

/-- One row: the words `ps`, and `a` times the words `bs` added to them. -/
def mulRow (base a : Nat) : Nat → List Nat → List Nat → List Nat
  | _, [], _ => []
  | _, p :: ps, [] => p :: ps
  | carry, p :: ps, b :: bs =>
    (carry + p + a * b) % base :: mulRow base a ((carry + p + a * b) / base) ps bs

/-- The rows, each one word further up than the one before. -/
def mulRows (base : Nat) (bs : List Nat) : List Nat → List Nat → List Nat
  | [], ps => ps
  | a :: as, ps =>
    (mulRow base a 0 ps bs).take 1 ++ mulRows base bs as ((mulRow base a 0 ps bs).drop 1)

/-- Long multiplication in so many words. -/
def mulAssign (w : Nat) : List Nat :=
  mulRows base (toLimbs base width w) (toLimbs base width v) (List.replicate width 0)

@[simp] theorem length_mulRow (a carry : Nat) (ps bs : List Nat) :
    (mulRow base a carry ps bs).length = ps.length := by
  induction ps generalizing carry bs with
  | nil => rfl
  | cons p ps ih =>
    cases bs with
    | nil => rfl
    | cons b bs => rw [mulRow, List.length_cons, List.length_cons, ih]

theorem mulRow_lt {base a carry : Nat} {ps bs : List Nat} (hbase : 0 < base) (hps : ∀ p ∈ ps, p < base) :
    ∀ p ∈ mulRow base a carry ps bs, p < base := by
  induction ps generalizing carry bs with
  | nil => exact hps
  | cons p ps ih =>
    cases bs with
    | nil => exact hps
    | cons b bs =>
      intro q hq
      rw [mulRow] at hq
      rcases List.mem_cons.mp hq with rfl | hq
      · exact Nat.mod_lt _ hbase
      · exact ih (fun p hp => hps p (.tail _ hp)) q hq

/-- The value of a row, up to what its last carry would add. -/
theorem ofDigits_mulRow {base a carry : Nat} {ps bs : List Nat} (hlength : ps.length ≤ bs.length) :
    Nat.ofDigits base (mulRow base a carry ps bs) ≡
      carry + Nat.ofDigits base ps + a * Nat.ofDigits base bs [MOD base ^ ps.length] := by
  induction ps generalizing carry bs with
  | nil => simp [Nat.modEq_one]
  | cons p ps ih =>
    cases bs with
    | nil => simp at hlength
    | cons b bs =>
      have hrest := @ih ((carry + p + a * b) / base) bs (by simpa using hlength)
      rw [mulRow, Nat.ofDigits_cons, Nat.ofDigits_cons, Nat.ofDigits_cons, List.length_cons, Nat.pow_succ']
      calc (carry + p + a * b) % base +
            base * Nat.ofDigits base (mulRow base a ((carry + p + a * b) / base) ps bs)
          ≡ (carry + p + a * b) % base + base * ((carry + p + a * b) / base +
              Nat.ofDigits base ps + a * Nat.ofDigits base bs) [MOD base * base ^ ps.length] :=
            (hrest.mul_left' base).add_left _
        _ = (carry + p + a * b) % base + base * ((carry + p + a * b) / base) +
              base * Nat.ofDigits base ps + base * (a * Nat.ofDigits base bs) := by ring
        _ = carry + (p + base * Nat.ofDigits base ps) + a * (b + base * Nat.ofDigits base bs) := by
            rw [Nat.mod_add_div]
            ring

/-- The value of all rows. -/
theorem ofDigits_mulRows {base : Nat} {as ps bs : List Nat} (hlength : ps.length ≤ bs.length) :
    Nat.ofDigits base (mulRows base bs as ps) ≡
      Nat.ofDigits base ps + Nat.ofDigits base as * Nat.ofDigits base bs [MOD base ^ ps.length] := by
  induction as generalizing ps with
  | nil => simp [mulRows, Nat.ModEq.refl]
  | cons a as ih =>
    have hrow := @ofDigits_mulRow base a 0 ps bs hlength
    cases hps : mulRow base a 0 ps bs with
    | nil =>
      have hzero : ps.length = 0 := by rw [← length_mulRow base a 0 ps bs, hps]; rfl
      rw [hzero, Nat.pow_zero]
      exact Nat.modEq_one
    | cons q qs =>
      have hqs : ps.length = qs.length + 1 := by rw [← length_mulRow base a 0 ps bs, hps]; rfl
      have hrest := @ih qs (by omega)
      rw [mulRows, hps]
      rw [hps, Nat.ofDigits_cons, hqs] at hrow
      rw [List.take_one, List.head?_cons, Option.toList_some, List.drop_one, List.tail_cons,
        List.singleton_append, Nat.ofDigits_cons, Nat.ofDigits_cons, hqs]
      calc q + base * Nat.ofDigits base (mulRows base bs as qs)
          ≡ q + base * (Nat.ofDigits base qs + Nat.ofDigits base as * Nat.ofDigits base bs)
              [MOD base ^ (qs.length + 1)] := by
            rw [Nat.pow_succ']
            exact (hrest.mul_left' base).add_left _
        _ = q + base * Nat.ofDigits base qs + base * Nat.ofDigits base as * Nat.ofDigits base bs := by ring
        _ ≡ 0 + Nat.ofDigits base ps + a * Nat.ofDigits base bs +
              base * Nat.ofDigits base as * Nat.ofDigits base bs [MOD base ^ (qs.length + 1)] :=
            hrow.add_right _
        _ = Nat.ofDigits base ps + (a + base * Nat.ofDigits base as) * Nat.ofDigits base bs := by ring

@[simp] theorem length_mulRows (bs as ps : List Nat) :
    (mulRows base bs as ps).length = ps.length := by
  induction as generalizing ps with
  | nil => rfl
  | cons a as ih =>
    rw [mulRows, List.length_append, ih, ← List.length_append, List.take_append_drop, length_mulRow]

theorem mulRows_lt {base : Nat} {as ps bs : List Nat} (hbase : 0 < base) (hps : ∀ p ∈ ps, p < base) :
    ∀ p ∈ mulRows base bs as ps, p < base := by
  induction as generalizing ps with
  | nil => exact hps
  | cons a as ih =>
    intro p hp
    have hrow : ∀ q ∈ mulRow base a 0 ps bs, q < base := mulRow_lt hbase hps
    rw [mulRows] at hp
    rcases List.mem_append.mp hp with hp | hp
    · exact hrow p (List.mem_of_mem_take hp)
    · exact ih (fun q hq => hrow q (List.mem_of_mem_drop hq)) p hp

/-- **Long multiplication** in a fixed width is multiplication modulo the values of that width. -/
theorem ofDigits_mulAssign {base width : Nat} (hbase : 1 < base) (v w : Nat) :
    Nat.ofDigits base (mulAssign base width v w) = v * w % base ^ width := by
  have hps : ∀ p ∈ List.replicate width 0, p < base := by
    intro p hp
    rw [List.eq_of_mem_replicate hp]
    omega
  have hmod := @ofDigits_mulRows base (toLimbs base width v) (List.replicate width 0) (toLimbs base width w)
    (by simp)
  have hlt := Nat.ofDigits_lt_base_pow_length hbase
    (@mulRows_lt base (toLimbs base width v) _ (toLimbs base width w) (by omega) hps)
  rw [ofDigits_toLimbs, ofDigits_toLimbs, Nat.ofDigits_replicate_zero, Nat.zero_add, List.length_replicate] at hmod
  rw [length_mulRows, List.length_replicate] at hlt
  rw [mulAssign, ← Nat.mod_eq_of_lt hlt, ← Nat.mul_mod_mod, ← Nat.mod_mul_mod]
  exact hmod

end Rapids.Lib
