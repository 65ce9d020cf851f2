import Mathlib.Algebra.Order.Field.Rat

/-!
# Rapids.Lib.Binary64

**Double precision** for non-negative numbers inside the normal range: the
exact result of an operation, rounded to 53 significant bits, ties to even.
Values are kept as the rationals they denote.
-/

namespace Rapids.Lib

/-- The integer nearest to `n / d`, ties to even. -/
def roundHalfEven (n d : Nat) : Nat :=
  let q := n / d
  let r := 2 * (n % d)
  if r < d then q else if d < r then q + 1 else q + q % 2

/-- The exponent of the leading binary digit of `n / d`. -/
def leadingExp (n d : Nat) : Int :=
  let e : Int := (n.log2 : Int) - d.log2
  if d * 2 ^ e.toNat ≤ n * 2 ^ (-e).toNat then e else e - 1

/-- Round a non-negative rational to double precision. -/
def toBinary64 (x : ℚ) : ℚ :=
  let n := x.num.toNat
  let d := x.den
  if n = 0 then 0
  else
    let k := 52 - leadingExp n d
    let m := roundHalfEven (n * 2 ^ k.toNat) (d * 2 ^ (-k).toNat)
    mkRat (m * 2 ^ (-k).toNat : Nat) (2 ^ k.toNat)

/-- Round a non-negative rational to double precision, also below the normal range,
where the last bit is worth `2 ^ -1074`. -/
def toBinary64Gradual (x : ℚ) : ℚ :=
  let n := x.num.toNat
  let d := x.den
  if n = 0 then 0
  else
    let k := min (52 - leadingExp n d) 1074
    let m := roundHalfEven (n * 2 ^ k.toNat) (d * 2 ^ (-k).toNat)
    mkRat (m * 2 ^ (-k).toNat : Nat) (2 ^ k.toNat)

/-- The nearest integer, halves away from zero. -/
def roundHalfUp (x : ℚ) : Nat := (2 * x.num.toNat + x.den) / (2 * x.den)

end Rapids.Lib
