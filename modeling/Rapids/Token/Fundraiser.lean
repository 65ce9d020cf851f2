import Rapids.Lib.Word
import Rapids.Token.Crowd

/-!
# Rapids.Token.Fundraiser

**The arithmetic of `calculateFundraiser`** (`sp.cpp`): which participations are computed
without a fault.

The tokens for a participation are a product of four numbers, one of them the bonus with
twelve digits, and fit into 256 bits with little to spare. If the total would pass the
maximum, the issuer's part is scaled down by the ratio of what was to be created and what
still can be, and the user gets the rest.

That ratio is a division by what still can be created. A crowdsale whose total becomes the
maximum **exactly** is not closed, since nothing passed the maximum; and then the next
participation that creates anything divides by zero (`calculateFundraiser_ok_iff`).
-/

namespace Rapids.Token

open Rapids.Lib

namespace Checked

/-! ### With faults -/

abbrev add := Word.add (2 ^ 256)

abbrev mul := Word.mul (2 ^ 256)

/-- Seconds left until the deadline. -/
def bonusSeconds (fundraiserSecs currentSecs : Int) : Except Fault Nat :=
  if currentSecs < fundraiserSecs then do
    let deadline ← named .asserts (convertTo256 fundraiserSecs)
    let now ← named .asserts (convertTo256 currentSecs)
    Word.sub deadline now
  else .ok 0

/-- The bonus percentage to apply, from the seconds left. -/
def bonusPercentage (seconds bonusPerc : Nat) : Except Fault Nat := do
  let weeks ← mul (seconds / 604800) precision
  let part ← mul (seconds % 604800) precision
  let weeks ← add weeks (part / 604800)
  let ebPercentage ← mul weeks bonusPerc
  let percentage ← add (precision * 100) ebPercentage
  return percentage / 100

variable (inflateAmount : Bool)

/-- An indivisible unit counts as many satoshi. -/
def inflate (transferred : Nat) : Except Fault Nat :=
  if inflateAmount then mul transferred satoshiPrecision else .ok transferred

/-- Total tokens including remainders. -/
def created (inflateAmount : Bool) (amtTransfer numProps : Int) (bonusPercentage : Nat) : Except Fault Nat := do
  let transferred ← named .asserts (convertTo256 amtTransfer)
  let inflated ← inflate inflateAmount transferred
  let props ← named .asserts (convertTo256 numProps)
  let created ← mul inflated props
  mul created bonusPercentage

/-- The tokens for the issuer, still scaled. -/
def issued (created issuerPerc : Nat) : Except Fault Nat := do
  let issuerPercentage ← mul issuerPerc precision
  let issuer ← mul (created / satoshiPrecision / precision) (issuerPercentage / 100 / 100)
  mul issuer precision

/-- What a transfer creates before any cap: for the user and for the issuer. -/
def createdTokens (amtTransfer : Int) (bonusPerc : Nat)
    (fundraiserSecs currentSecs numProps : Int) (issuerPerc : Nat) : Except Fault (Nat × Nat) := do
  let seconds ← bonusSeconds fundraiserSecs currentSecs
  let percentage ← bonusPercentage seconds bonusPerc
  let created ← created inflateAmount amtTransfer numProps percentage
  let issuer ← issued created issuerPerc
  return (created / precision / satoshiPrecision, issuer / precision / satoshiPrecision / 100)

/-- `amount * precision_ * satoshi_precision_` -/
def scaled (amount : Nat) : Except Fault Nat := do
  let amount ← mul amount precision
  mul amount satoshiPrecision

/-- Share out what still can be created. -/
def share (createdInt issuerInt maxCreatable : Nat) : Except Fault (Int × Int × Bool) := do
  let created ← add createdInt issuerInt
  let ratio ← scaled created
  let ratio ← Word.div ratio maxCreatable
  let issuer ← scaled issuerInt
  let issuer ← Word.div issuer ratio
  if maxCreatable < issuer then .error .asserts
  else do
    let user ← Word.sub maxCreatable issuer
    let user64 ← named .asserts (convertTo64 user)
    let issuer64 ← named .asserts (convertTo64 issuer)
    return (user64, issuer64, true)

/-- Cap what is created so that the total stays within 64 bits. -/
def capFundraiser (createdInt issuerInt : Nat) (totalTokens : Int) : Except Fault (Int × Int × Bool) := do
  let total ← named .asserts (convertTo256 totalTokens)
  let newTotal ← add total createdInt
  let newTotal ← add newTotal issuerInt
  if maxInt8Bytes < newTotal then do
    let maxCreatable ← Word.sub maxInt8Bytes total
    share createdInt issuerInt maxCreatable
  else do
    let user64 ← named .asserts (convertTo64 createdInt)
    let issuer64 ← named .asserts (convertTo64 issuerInt)
    return (user64, issuer64, false)

/-- `calculateFundraiser`, with the fault that stops it or makes it wrong. -/
def calculateFundraiser (amtTransfer : Int) (bonusPerc : Nat)
    (fundraiserSecs currentSecs numProps : Int) (issuerPerc : Nat) (totalTokens : Int) :
    Except Fault (Int × Int × Bool) := do
  let amounts ← createdTokens inflateAmount amtTransfer bonusPerc fundraiserSecs currentSecs numProps issuerPerc
  capFundraiser amounts.1 amounts.2 totalTokens

end Checked

/-! ### The same results -/

section Refines

theorem w256_of_ok {x y : Nat} (h : x < 2 ^ 256 ∧ x = y) : w256 x = y := by
  rw [w256_of_lt h.1, h.2]

theorem sub256_of_ok {a b c : Nat} (ha : a < 2 ^ 256) (h : Word.sub a b = .ok c) : sub256 a b = c := by
  obtain ⟨hle, hc⟩ := Word.sub_eq_ok.mp h
  rw [sub256_of_le hle ha, hc]

theorem convertTo256_lt {x : Int} {y : Nat} (hx : x ≤ i64Max) (h : convertTo256 x = some y) : y < 2 ^ 256 := by
  obtain ⟨h0, rfl⟩ := convertTo256_toNat h
  unfold i64Max at hx
  omega

variable {v : Nat} {r : Int × Int × Bool}

theorem bonusSeconds_of_ok {secs now : Int} (hsecs : secs ≤ i64Max)
    (h : Checked.bonusSeconds secs now = .ok v) : bonusSeconds secs now = some v := by
  unfold Checked.bonusSeconds at h
  unfold bonusSeconds
  split_ifs at h ⊢
  · obtain ⟨deadline, hdeadline, h⟩ := Word.bind_eq_ok.mp h
    obtain ⟨current, hcurrent, h⟩ := Word.bind_eq_ok.mp h
    have hd := Word.named_iff.mp hdeadline
    rw [hd, Word.named_iff.mp hcurrent, Option.bind_eq_bind, Option.bind_some, Option.bind_some,
      sub256_of_ok (convertTo256_lt hsecs hd) h]
    rfl
  · cases h
    rfl

theorem bonusPercentage_of_ok {seconds bonusPerc : Nat} (h : Checked.bonusPercentage seconds bonusPerc = .ok v) :
    w256 (w256 (precision * 100) + w256 (w256 (w256 (seconds / 604800 * precision) +
      w256 (seconds % 604800 * precision) / 604800) * bonusPerc)) / 100 = v := by
  unfold Checked.bonusPercentage at h
  obtain ⟨weeks, hweeks, h⟩ := Word.bind_eq_ok.mp h
  obtain ⟨part, hpart, h⟩ := Word.bind_eq_ok.mp h
  obtain ⟨sum, hsum, h⟩ := Word.bind_eq_ok.mp h
  obtain ⟨eb, heb, h⟩ := Word.bind_eq_ok.mp h
  obtain ⟨percentage, hpercentage, h⟩ := Word.bind_eq_ok.mp h
  rw [w256_of_ok (Word.mul_eq_ok.mp hweeks), w256_of_ok (Word.mul_eq_ok.mp hpart),
    w256_of_ok (Word.add_eq_ok.mp hsum), w256_of_ok (Word.mul_eq_ok.mp heb),
    w256_of_lt (x := precision * 100) (by decide), w256_of_ok (Word.add_eq_ok.mp hpercentage)]
  cases h
  rfl

theorem inflate_of_ok {inflate : Bool} {transferred : Nat} (h : Checked.inflate inflate transferred = .ok v) :
    (if inflate then w256 (transferred * satoshiPrecision) else transferred) = v := by
  unfold Checked.inflate at h
  split_ifs at h ⊢
  · exact w256_of_ok (Word.mul_eq_ok.mp h)
  · exact Except.ok.inj h

theorem created_of_ok {inflate : Bool} {amt num : Int} {percentage : Nat}
    (h : Checked.created inflate amt num percentage = .ok v) :
    ∃ transferred props, convertTo256 amt = some transferred ∧ convertTo256 num = some props ∧
      w256 (w256 ((if inflate then w256 (transferred * satoshiPrecision) else transferred) * props) *
        percentage) = v := by
  unfold Checked.created at h
  obtain ⟨transferred, htransferred, h⟩ := Word.bind_eq_ok.mp h
  obtain ⟨inflated, hinflated, h⟩ := Word.bind_eq_ok.mp h
  obtain ⟨props, hprops, h⟩ := Word.bind_eq_ok.mp h
  obtain ⟨product, hproduct, h⟩ := Word.bind_eq_ok.mp h
  refine ⟨transferred, props, Word.named_iff.mp htransferred, Word.named_iff.mp hprops, ?_⟩
  rw [inflate_of_ok hinflated, w256_of_ok (Word.mul_eq_ok.mp hproduct), w256_of_ok (Word.mul_eq_ok.mp h)]

theorem issued_of_ok {created issuerPerc : Nat} (h : Checked.issued created issuerPerc = .ok v) :
    w256 (w256 (created / satoshiPrecision / precision * (w256 (issuerPerc * precision) / 100 / 100)) *
      precision) = v := by
  unfold Checked.issued at h
  obtain ⟨percentage, hpercentage, h⟩ := Word.bind_eq_ok.mp h
  obtain ⟨product, hproduct, h⟩ := Word.bind_eq_ok.mp h
  rw [w256_of_ok (Word.mul_eq_ok.mp hpercentage), w256_of_ok (Word.mul_eq_ok.mp hproduct),
    w256_of_ok (Word.mul_eq_ok.mp h)]

theorem createdTokens_of_ok {inflate : Bool} {amt secs now num : Int} {bonusPerc issuerPerc : Nat}
    {r : Nat × Nat} (hsecs : secs ≤ i64Max)
    (h : Checked.createdTokens inflate amt bonusPerc secs now num issuerPerc = .ok r) :
    createdTokens inflate amt bonusPerc secs now num issuerPerc = some r := by
  unfold Checked.createdTokens at h
  obtain ⟨seconds, hseconds, h⟩ := Word.bind_eq_ok.mp h
  obtain ⟨percentage, hpercentage, h⟩ := Word.bind_eq_ok.mp h
  obtain ⟨created, hcreated, h⟩ := Word.bind_eq_ok.mp h
  obtain ⟨issuer, hissuer, h⟩ := Word.bind_eq_ok.mp h
  obtain ⟨transferred, props, htransferred, hprops, hproduct⟩ := created_of_ok hcreated
  rw [createdTokens, bonusSeconds_of_ok hsecs hseconds, htransferred, hprops]
  simp only [Option.bind_eq_bind, Option.bind_some]
  rw [bonusPercentage_of_ok hpercentage, hproduct, issued_of_ok hissuer]
  cases h
  rfl

theorem scaled_of_ok {x : Nat} (h : Checked.scaled x = .ok v) :
    w256 (w256 (x * precision) * satoshiPrecision) = v := by
  unfold Checked.scaled at h
  obtain ⟨product, hproduct, h⟩ := Word.bind_eq_ok.mp h
  rw [w256_of_ok (Word.mul_eq_ok.mp hproduct), w256_of_ok (Word.mul_eq_ok.mp h)]

/-- A share is that of what can be created which the ratio gives to the issuer. -/
theorem share_of_ok {c i m : Nat} (hm : m < 2 ^ 256) (h : Checked.share c i m = .ok r) :
    ∃ ratio issuer, w256 (w256 (w256 (c + i) * precision) * satoshiPrecision) / m = ratio ∧
      w256 (w256 (i * precision) * satoshiPrecision) / ratio = issuer ∧ m ≠ 0 ∧ ratio ≠ 0 ∧ issuer ≤ m ∧
      ∃ user64 issuer64, convertTo64 (sub256 m issuer) = some user64 ∧ convertTo64 issuer = some issuer64 ∧
        r = (user64, issuer64, true) := by
  unfold Checked.share at h
  obtain ⟨created, hcreated, h⟩ := Word.bind_eq_ok.mp h
  obtain ⟨scaledAll, hall, h⟩ := Word.bind_eq_ok.mp h
  obtain ⟨ratio, hratio, h⟩ := Word.bind_eq_ok.mp h
  obtain ⟨scaledIssuer, hscaled, h⟩ := Word.bind_eq_ok.mp h
  obtain ⟨issuer, hissuer, h⟩ := Word.bind_eq_ok.mp h
  obtain ⟨hm0, hdiv⟩ := Word.div_eq_ok.mp hratio
  obtain ⟨hratio0, hdiv'⟩ := Word.div_eq_ok.mp hissuer
  split_ifs at h with hlarge
  obtain ⟨user, huser, h⟩ := Word.bind_eq_ok.mp h
  obtain ⟨user64, huser64, h⟩ := Word.bind_eq_ok.mp h
  obtain ⟨issuer64, hissuer64, h⟩ := Word.bind_eq_ok.mp h
  refine ⟨ratio, issuer, ?_, ?_, hm0, hratio0, not_lt.mp hlarge, user64, issuer64, ?_,
    Word.named_iff.mp hissuer64, (Except.ok.inj h).symm⟩
  · rw [w256_of_ok (Word.add_eq_ok.mp hcreated), scaled_of_ok hall, hdiv]
  · rw [scaled_of_ok hscaled, hdiv']
  · rw [sub256_of_ok hm huser, Word.named_iff.mp huser64]

theorem capFundraiser_of_ok {c i : Nat} {total : Int}
    (h : Checked.capFundraiser c i total = .ok r) : capFundraiser c i total = some r := by
  unfold Checked.capFundraiser at h
  obtain ⟨t, htotal, h⟩ := Word.bind_eq_ok.mp h
  obtain ⟨sum, hsum, h⟩ := Word.bind_eq_ok.mp h
  obtain ⟨newTotal, hnew, h⟩ := Word.bind_eq_ok.mp h
  rw [capFundraiser, Word.named_iff.mp htotal]
  simp only [Option.bind_eq_bind, Option.bind_some]
  rw [w256_of_ok (Word.add_eq_ok.mp hsum), w256_of_ok (Word.add_eq_ok.mp hnew)]
  by_cases hcap : maxInt8Bytes < newTotal
  · rw [if_pos hcap] at h
    obtain ⟨m, hm, h⟩ := Word.bind_eq_ok.mp h
    have hm256 : m < 2 ^ 256 := by
      have hle := (Word.sub_eq_ok.mp hm).2
      have hmax : maxInt8Bytes = 9223372036854775807 := rfl
      omega
    obtain ⟨ratio, issuer, hratio, hissuer, hm0, hratio0, hle, user64, issuer64, huser64, hissuer64, hr⟩ :=
      share_of_ok hm256 h
    rw [if_pos hcap, sub256_of_ok (by decide) hm, hratio, hissuer,
      if_neg (not_or.mpr ⟨hm0, not_or.mpr ⟨hratio0, not_lt.mpr hle⟩⟩), huser64, hissuer64, hr]
    rfl
  · rw [if_neg hcap] at h
    obtain ⟨user64, huser64, h⟩ := Word.bind_eq_ok.mp h
    obtain ⟨issuer64, hissuer64, h⟩ := Word.bind_eq_ok.mp h
    rw [if_neg hcap, Word.named_iff.mp huser64, Word.named_iff.mp hissuer64]
    cases h
    rfl

/-- **A participation without faults** is computed as in the model. -/
theorem calculateFundraiser_of_ok {inflate : Bool} {amt secs now num total : Int} {bonusPerc issuerPerc : Nat}
    (hsecs : secs ≤ i64Max)
    (h : Checked.calculateFundraiser inflate amt bonusPerc secs now num issuerPerc total = .ok r) :
    calculateFundraiser inflate amt bonusPerc secs now num issuerPerc total = some r := by
  unfold Checked.calculateFundraiser at h
  obtain ⟨amounts, hamounts, h⟩ := Word.bind_eq_ok.mp h
  rw [calculateFundraiser, createdTokens_of_ok hsecs hamounts]
  exact capFundraiser_of_ok h

end Refines

/-! ### Room for the products -/

section Bounds

/-- The weeks left until the deadline, with twelve digits. -/
def weeksLeft (fundraiserSecs currentSecs : Int) : Nat :=
  (fundraiserSecs - currentSecs).toNat / 604800 * precision +
    (fundraiserSecs - currentSecs).toNat % 604800 * precision / 604800

/-- One and the early bird bonus, with twelve digits. -/
def bonusFactor (bonusPerc : Nat) (fundraiserSecs currentSecs : Int) : Nat :=
  (precision * 100 + weeksLeft fundraiserSecs currentSecs * bonusPerc) / 100

/-- What an amount is worth, with twenty digits more than whole tokens have. -/
def worth (inflateAmount : Bool) (amtTransfer : Int) (bonusPerc : Nat) (fundraiserSecs currentSecs numProps : Int) :
    Nat :=
  amtTransfer.toNat * (if inflateAmount then satoshiPrecision else 1) * numProps.toNat *
    bonusFactor bonusPerc fundraiserSecs currentSecs

variable {inflate : Bool} {amt secs now num total : Int} {bonusPerc issuerPerc c i m : Nat}

theorem precision_eq : precision = 1000000000000 := rfl

theorem satoshiPrecision_eq : satoshiPrecision = 100000000 := rfl

theorem bonusSeconds_ok (hnow : 0 ≤ now) : Checked.bonusSeconds secs now = .ok (secs - now).toNat := by
  unfold Checked.bonusSeconds
  split_ifs with hopen
  · rw [convertTo256, if_neg (by omega), convertTo256, if_neg (by omega)]
    refine Word.sub_eq_ok.mpr ⟨by omega, by omega⟩
  · rw [Int.toNat_eq_zero.mpr (by omega)]

section
variable (hsecs : secs ≤ i64Max) (hnow : 0 ≤ now)
include hsecs hnow

theorem weeksLeft_le :
    weeksLeft secs now ≤ 15250284452472000000000000 := by
  unfold weeksLeft i64Max at *
  rw [precision_eq]
  omega

theorem weeksLeft_mul_le (hbonus : bonusPerc ≤ 255) :
    weeksLeft secs now * bonusPerc ≤ 15250284452472000000000000 * 255 :=
  Nat.mul_le_mul (weeksLeft_le hsecs hnow) hbonus

theorem bonusFactor_le (hbonus : bonusPerc ≤ 255) :
    bonusFactor bonusPerc secs now ≤ 38888225353804600000000000 := by
  have hle := weeksLeft_mul_le hsecs hnow hbonus
  unfold bonusFactor
  rw [precision_eq]
  omega

theorem bonusPercentage_ok (hbonus : bonusPerc ≤ 255) :
    Checked.bonusPercentage (secs - now).toNat bonusPerc = .ok (bonusFactor bonusPerc secs now) := by
  have hweeks := weeksLeft_le hsecs hnow
  have hle := weeksLeft_mul_le hsecs hnow hbonus
  unfold weeksLeft at hweeks
  unfold Checked.bonusPercentage
  refine Word.bind_eq_ok.mpr ⟨_, Word.mul_eq_ok.mpr ⟨by omega, rfl⟩, Word.bind_eq_ok.mpr ⟨_, Word.mul_eq_ok.mpr
    ⟨?_, rfl⟩, Word.bind_eq_ok.mpr ⟨_, Word.add_eq_ok.mpr ⟨by omega, rfl⟩, Word.bind_eq_ok.mpr ⟨_,
      Word.mul_eq_ok.mpr ⟨?_, rfl⟩, Word.bind_eq_ok.mpr ⟨_, Word.add_eq_ok.mpr ⟨?_, rfl⟩, rfl⟩⟩⟩⟩⟩
  · rw [precision_eq]
    omega
  · exact lt_of_le_of_lt hle (by decide)
  · refine lt_of_le_of_lt (Nat.add_le_add_left hle _) (by decide)

end

theorem worth_le (hamt : amt ≤ i64Max) (hnum : num ≤ i64Max) (hsecs : secs ≤ i64Max) (hnow : 0 ≤ now)
    (hbonus : bonusPerc ≤ 255) :
    worth inflate amt bonusPerc secs now num ≤
      9223372036854775807 * 100000000 * 9223372036854775807 * 38888225353804600000000000 := by
  have hscale : (if inflate then satoshiPrecision else 1) ≤ 100000000 := by
    split_ifs
    · exact le_rfl
    · decide
  unfold i64Max at hamt hnum
  refine Nat.mul_le_mul (Nat.mul_le_mul (Nat.mul_le_mul ?_ hscale) ?_) (bonusFactor_le hsecs hnow hbonus)
  · omega
  · omega

theorem inflate_ok (transferred : Nat) (h : transferred ≤ 9223372036854775807) :
    Checked.inflate inflate transferred = .ok (transferred * if inflate then satoshiPrecision else 1) := by
  unfold Checked.inflate
  split_ifs
  · refine Word.mul_eq_ok.mpr ⟨?_, rfl⟩
    rw [satoshiPrecision_eq]
    omega
  · rw [Nat.mul_one]

theorem created_ok (hamt0 : 0 ≤ amt) (hamt : amt ≤ i64Max) (hnum0 : 0 ≤ num) (hnum : num ≤ i64Max)
    (hsecs : secs ≤ i64Max) (hnow : 0 ≤ now) (hbonus : bonusPerc ≤ 255) :
    Checked.created inflate amt num (bonusFactor bonusPerc secs now) =
      .ok (worth inflate amt bonusPerc secs now num) := by
  have hworth := @worth_le inflate _ _ _ _ _ hamt hnum hsecs hnow hbonus
  have hscale : (if inflate then satoshiPrecision else 1) ≤ 100000000 := by
    split_ifs
    · exact le_rfl
    · decide
  unfold i64Max at hamt hnum
  have hproduct : amt.toNat * (if inflate then satoshiPrecision else 1) * num.toNat ≤
      9223372036854775807 * 100000000 * 9223372036854775807 :=
    Nat.mul_le_mul (Nat.mul_le_mul (by omega) hscale) (by omega)
  unfold Checked.created
  refine Word.bind_eq_ok.mpr ⟨amt.toNat, Word.named_iff.mpr (if_neg (by omega)), Word.bind_eq_ok.mpr
    ⟨_, inflate_ok _ (by omega), Word.bind_eq_ok.mpr ⟨num.toNat, Word.named_iff.mpr (if_neg (by omega)),
      Word.bind_eq_ok.mpr ⟨_, Word.mul_eq_ok.mpr ⟨lt_of_le_of_lt hproduct (by decide), rfl⟩, ?_⟩⟩⟩⟩
  exact Word.mul_eq_ok.mpr ⟨lt_of_le_of_lt hworth (by decide), rfl⟩

theorem issued_ok {created : Nat}
    (h : created ≤ 9223372036854775807 * 100000000 * 9223372036854775807 * 38888225353804600000000000)
    (hissuer : issuerPerc ≤ 255) :
    Checked.issued created issuerPerc =
      .ok (created / satoshiPrecision / precision * (issuerPerc * 100000000) * precision) := by
  have hpercentage : issuerPerc * precision / 100 / 100 = issuerPerc * 100000000 := by
    rw [precision_eq]
    omega
  have htokens : created / satoshiPrecision / precision ≤ 3308244342186869722741102780259408960721159436401945 := by
    rw [satoshiPrecision_eq, precision_eq]
    omega
  have hproduct : created / satoshiPrecision / precision * (issuerPerc * 100000000) ≤
      3308244342186869722741102780259408960721159436401945 * (255 * 100000000) :=
    Nat.mul_le_mul htokens (Nat.mul_le_mul_right _ hissuer)
  unfold Checked.issued
  refine Word.bind_eq_ok.mpr ⟨_, Word.mul_eq_ok.mpr ⟨?_, rfl⟩, Word.bind_eq_ok.mpr ⟨_, Word.mul_eq_ok.mpr ⟨?_, rfl⟩, ?_⟩⟩
  · rw [precision_eq]
    omega
  · rw [hpercentage]
    exact lt_of_le_of_lt hproduct (by decide)
  · rw [hpercentage]
    refine Word.mul_eq_ok.mpr ⟨lt_of_le_of_lt (Nat.mul_le_mul_right _ hproduct) (by decide), rfl⟩

/-- The whole tokens that an amount buys. -/
def tokensBought (inflateAmount : Bool) (amtTransfer : Int) (bonusPerc : Nat)
    (fundraiserSecs currentSecs numProps : Int) : Nat :=
  worth inflateAmount amtTransfer bonusPerc fundraiserSecs currentSecs numProps / (precision * satoshiPrecision)

/-- **What is created**, before any cap. -/
theorem createdTokens_ok (hamt0 : 0 ≤ amt) (hamt : amt ≤ i64Max) (hnum0 : 0 ≤ num) (hnum : num ≤ i64Max)
    (hsecs : secs ≤ i64Max) (hnow : 0 ≤ now) (hbonus : bonusPerc ≤ 255) (hissuer : issuerPerc ≤ 255) :
    Checked.createdTokens inflate amt bonusPerc secs now num issuerPerc =
      .ok (tokensBought inflate amt bonusPerc secs now num,
        tokensBought inflate amt bonusPerc secs now num * issuerPerc / 100) := by
  have hworth := @worth_le inflate _ _ _ _ _ hamt hnum hsecs hnow hbonus
  unfold Checked.createdTokens
  refine Word.bind_eq_ok.mpr ⟨_, bonusSeconds_ok hnow, Word.bind_eq_ok.mpr ⟨_, bonusPercentage_ok hsecs hnow hbonus,
    Word.bind_eq_ok.mpr ⟨_, created_ok hamt0 hamt hnum0 hnum hsecs hnow hbonus, Word.bind_eq_ok.mpr
      ⟨_, issued_ok hworth hissuer, ?_⟩⟩⟩⟩
  have htokens : worth inflate amt bonusPerc secs now num / precision / satoshiPrecision =
      tokensBought inflate amt bonusPerc secs now num := Nat.div_div_eq_div_mul _ _ _
  have htokens' : worth inflate amt bonusPerc secs now num / satoshiPrecision / precision =
      tokensBought inflate amt bonusPerc secs now num := by
    rw [Nat.div_div_eq_div_mul, Nat.mul_comm]
    rfl
  have hissued : tokensBought inflate amt bonusPerc secs now num * (issuerPerc * 100000000) * precision / precision /
      satoshiPrecision / 100 = tokensBought inflate amt bonusPerc secs now num * issuerPerc / 100 := by
    rw [Nat.mul_div_cancel _ (by decide), ← Nat.mul_assoc]
    congr 1
    exact Nat.mul_div_cancel _ (by decide)
  rw [htokens', hissued, htokens]
  rfl

theorem tokensBought_le (hamt : amt ≤ i64Max) (hnum : num ≤ i64Max) (hsecs : secs ≤ i64Max) (hnow : 0 ≤ now)
    (hbonus : bonusPerc ≤ 255) :
    tokensBought inflate amt bonusPerc secs now num ≤ 3308244342186869722741102780259408960721159436401945 := by
  have hworth := @worth_le inflate _ _ _ _ _ hamt hnum hsecs hnow hbonus
  unfold tokensBought
  rw [precision_eq, satoshiPrecision_eq]
  omega

/-! ### The cap -/

theorem scaled_ok {x : Nat} (h : x * (precision * satoshiPrecision) < 2 ^ 256) :
    Checked.scaled x = .ok (x * (precision * satoshiPrecision)) := by
  have hproduct : x * precision ≤ x * (precision * satoshiPrecision) := by
    rw [← Nat.mul_assoc]
    exact Nat.le_mul_of_pos_right _ (by decide)
  refine Word.bind_eq_ok.mpr ⟨_, Word.mul_eq_ok.mpr ⟨lt_of_le_of_lt hproduct h, rfl⟩, ?_⟩
  refine Word.mul_eq_ok.mpr ⟨?_, Nat.mul_assoc _ _ _⟩
  rwa [Nat.mul_assoc]

/-- The ratio is large enough for the issuer's part: rounding it down does not outweigh the user's part. -/
theorem issuer_le {s : Nat} (hscale : 4 ≤ s) (hm : 0 < m) (hgt : m < c + i) (hi : i ≤ 3 * c) :
    0 < (c + i) * s / m ∧ i * s / ((c + i) * s / m) ≤ m := by
  have hc : c * 4 ≤ c * s := Nat.mul_le_mul_left c hscale
  have hlt := Nat.lt_mul_div_succ ((c + i) * s) hm
  have hratio : 0 < (c + i) * s / m := by
    rw [Nat.div_pos_iff, Nat.add_mul]
    omega
  refine ⟨hratio, ?_⟩
  generalize (c + i) * s / m = ratio at hratio hlt ⊢
  rw [Nat.mul_succ, Nat.add_mul] at hlt
  have hpart : i * s < (m + 1) * ratio := by
    rw [Nat.succ_mul]
    generalize m * ratio = product at hlt ⊢
    omega
  have hdiv := (Nat.div_lt_iff_lt_mul hratio).mpr hpart
  omega

/-- What a fundraiser gives out: amounts of tokens that fit, all there is when it is closed. -/
structure SharesOut (total : Int) (r : Int × Int × Bool) : Prop where
  user : 0 ≤ r.1 ∧ r.1 ≤ i64Max
  issuer : 0 ≤ r.2.1 ∧ r.2.1 ≤ i64Max
  bounded : total + r.1 + r.2.1 ≤ i64Max
  closed : r.2.2 = true → total + r.1 + r.2.1 = i64Max

/-- The largest number of tokens that a participation can be worth. -/
def mostTokens : Nat := 3308244342186869722741102780259408960721159436401945

theorem share_ok (hm : 0 < m) (hmax : m ≤ maxInt8Bytes) (hgt : m < c + i) (hi : i ≤ 3 * c) (hc : c ≤ mostTokens) :
    ∃ issuer, issuer ≤ m ∧ Checked.share c i m = .ok (((m - issuer : Nat) : Int), (issuer : Int), true) := by
  have hroom : (c + i) * (precision * satoshiPrecision) < 2 ^ 256 := by
    have hle : c + i ≤ 4 * mostTokens := by omega
    exact lt_of_le_of_lt (Nat.mul_le_mul_right _ hle) (by decide)
  have hroomIssuer : i * (precision * satoshiPrecision) < 2 ^ 256 :=
    lt_of_le_of_lt (Nat.mul_le_mul_right _ (Nat.le_add_left i c)) hroom
  obtain ⟨hratio, hle⟩ := issuer_le (s := precision * satoshiPrecision) (by decide) hm hgt hi
  refine ⟨_, hle, ?_⟩
  unfold Checked.share
  refine Word.bind_eq_ok.mpr ⟨_, Word.add_eq_ok.mpr ⟨?_, rfl⟩, Word.bind_eq_ok.mpr ⟨_, scaled_ok hroom,
    Word.bind_eq_ok.mpr ⟨_, Word.div_eq_ok.mpr ⟨Nat.ne_of_gt hm, rfl⟩, Word.bind_eq_ok.mpr ⟨_, scaled_ok hroomIssuer,
      Word.bind_eq_ok.mpr ⟨_, Word.div_eq_ok.mpr ⟨Nat.ne_of_gt hratio, rfl⟩, ?_⟩⟩⟩⟩⟩
  · refine lt_of_le_of_lt (Nat.le_mul_of_pos_right _ (by decide)) hroom
  · rw [if_neg (Nat.not_lt.mpr hle)]
    refine Word.bind_eq_ok.mpr ⟨_, Word.sub_eq_ok.mpr ⟨hle, rfl⟩, Word.bind_eq_ok.mpr ⟨_, Word.named_iff.mpr
      (if_neg (Nat.not_lt.mpr (le_trans (Nat.sub_le _ _) hmax))), Word.bind_eq_ok.mpr ⟨_, Word.named_iff.mpr
        (if_neg (Nat.not_lt.mpr (le_trans hle hmax))), rfl⟩⟩⟩

theorem capFundraiser_ok (hi : i ≤ 3 * c) (hc : c ≤ mostTokens) (h0 : 0 ≤ total) (hmax : total ≤ i64Max)
    (hroom : total < i64Max ∨ c = 0) : ∃ r, Checked.capFundraiser c i total = .ok r ∧ SharesOut total r := by
  have h63 : maxInt8Bytes = 9223372036854775807 := rfl
  have hmost : mostTokens < 2 ^ 200 := by decide
  unfold i64Max at hmax hroom
  have htotal : named Fault.asserts (convertTo256 total) = .ok total.toNat :=
    Word.named_iff.mpr (if_neg (by omega))
  have hsum : Checked.add total.toNat c = .ok (total.toNat + c) := Word.add_eq_ok.mpr ⟨by omega, rfl⟩
  have hnew : Checked.add (total.toNat + c) i = .ok (total.toNat + c + i) := Word.add_eq_ok.mpr ⟨by omega, rfl⟩
  by_cases hcap : maxInt8Bytes < total.toNat + c + i
  · obtain ⟨issuer, hle, hshare⟩ := share_ok (m := maxInt8Bytes - total.toNat) (by omega) (Nat.sub_le _ _)
      (by omega) hi hc
    refine ⟨(((maxInt8Bytes - total.toNat - issuer : Nat) : Int), (issuer : Int), true),
      Word.bind_eq_ok.mpr ⟨_, htotal, Word.bind_eq_ok.mpr ⟨_, hsum, Word.bind_eq_ok.mpr ⟨_, hnew, ?_⟩⟩⟩, ?_⟩
    · rw [if_pos hcap]
      exact Word.bind_eq_ok.mpr ⟨_, Word.sub_eq_ok.mpr ⟨by omega, rfl⟩, hshare⟩
    · refine ⟨?_, ?_, ?_, fun _ => ?_⟩
      all_goals
        unfold i64Max
        dsimp only
        omega
  · refine ⟨((c : Int), (i : Int), false), Word.bind_eq_ok.mpr ⟨_, htotal, Word.bind_eq_ok.mpr ⟨_, hsum,
      Word.bind_eq_ok.mpr ⟨_, hnew, ?_⟩⟩⟩, ?_⟩
    · rw [if_neg hcap]
      exact Word.bind_eq_ok.mpr ⟨_, Word.named_iff.mpr (if_neg (by omega)), Word.bind_eq_ok.mpr
        ⟨_, Word.named_iff.mpr (if_neg (by omega)), rfl⟩⟩
    · refine ⟨?_, ?_, ?_, fun hclosed => by cases hclosed⟩
      all_goals
        unfold i64Max
        dsimp only
        omega

theorem capFundraiser_full (hc : c ≠ 0) (r : Int × Int × Bool) : Checked.capFundraiser c i i64Max ≠ .ok r := by
  intro h
  unfold Checked.capFundraiser at h
  obtain ⟨total, htotal, h⟩ := Word.bind_eq_ok.mp h
  obtain ⟨sum, hsum, h⟩ := Word.bind_eq_ok.mp h
  obtain ⟨newTotal, hnew, h⟩ := Word.bind_eq_ok.mp h
  have hfull : total = maxInt8Bytes := (convertTo256_toNat (Word.named_iff.mp htotal)).2
  have hover : maxInt8Bytes < newTotal := by
    have hsum' := (Word.add_eq_ok.mp hsum).2
    have hnew' := (Word.add_eq_ok.mp hnew).2
    omega
  rw [if_pos hover] at h
  obtain ⟨m, hm, h⟩ := Word.bind_eq_ok.mp h
  have hzero : m = 0 := by
    have hm' := (Word.sub_eq_ok.mp hm).2
    omega
  unfold Checked.share at h
  obtain ⟨created, -, h⟩ := Word.bind_eq_ok.mp h
  obtain ⟨scaledAll, -, h⟩ := Word.bind_eq_ok.mp h
  obtain ⟨ratio, hratio, -⟩ := Word.bind_eq_ok.mp h
  exact (Word.div_eq_ok.mp hratio).1 hzero

/-- **A participation is computed without a fault** unless the maximum is reached and it buys
something. Its result is then the one of the model, and amounts for which there is room. -/
theorem calculateFundraiser_ok_iff (hamt0 : 0 ≤ amt) (hamt : amt ≤ i64Max) (hnum0 : 0 ≤ num) (hnum : num ≤ i64Max)
    (hsecs : secs ≤ i64Max) (hnow : 0 ≤ now) (hbonus : bonusPerc ≤ 255) (hissuer : issuerPerc ≤ 255)
    (h0 : 0 ≤ total) (hmax : total ≤ i64Max) :
    (∃ r, Checked.calculateFundraiser inflate amt bonusPerc secs now num issuerPerc total = .ok r ∧
      calculateFundraiser inflate amt bonusPerc secs now num issuerPerc total = some r ∧ SharesOut total r) ↔
      total < i64Max ∨ worth inflate amt bonusPerc secs now num < precision * satoshiPrecision := by
  have hcreated := @createdTokens_ok inflate _ _ _ _ _ _ hamt0 hamt hnum0 hnum hsecs hnow hbonus hissuer
  have hnothing : tokensBought inflate amt bonusPerc secs now num = 0 ↔
      worth inflate amt bonusPerc secs now num < precision * satoshiPrecision :=
    Nat.div_eq_zero_iff_lt (by decide)
  constructor
  · rintro ⟨r, hr, -, -⟩
    obtain ⟨amounts, hamounts, hcap⟩ := Word.bind_eq_ok.mp hr
    rw [hcreated] at hamounts
    cases hamounts
    by_contra hfull
    obtain ⟨htotal, hworth⟩ := not_or.mp hfull
    rw [le_antisymm hmax (not_lt.mp htotal)] at hcap
    exact capFundraiser_full (fun hc => hworth (hnothing.mp hc)) r hcap
  · intro h
    have hpart : tokensBought inflate amt bonusPerc secs now num * issuerPerc / 100 ≤
        3 * tokensBought inflate amt bonusPerc secs now num := by
      have hmul : tokensBought inflate amt bonusPerc secs now num * issuerPerc ≤
          tokensBought inflate amt bonusPerc secs now num * 255 := Nat.mul_le_mul_left _ hissuer
      omega
    obtain ⟨r, hcap, hshares⟩ := capFundraiser_ok hpart (tokensBought_le hamt hnum hsecs hnow hbonus) h0 hmax
      (h.imp_right hnothing.mpr)
    have hr : Checked.calculateFundraiser inflate amt bonusPerc secs now num issuerPerc total = .ok r :=
      Word.bind_eq_ok.mpr ⟨_, hcreated, hcap⟩
    exact ⟨r, hr, calculateFundraiser_of_ok hsecs hr, hshares⟩

end Bounds

end Rapids.Token
