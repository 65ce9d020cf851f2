import Rapids.Lib.Allot
import Rapids.Token.Rounding

/-!
# Rapids.Token.OwnerShares

**`STO_GetReceivers`**: an amount split between the owners of a property.

The source walks the tally map, a hash map, in an order of its own. Here the walk is any
list with the entries of the map. The owners are put into a set that is sorted by holding,
so that the walk decides nothing beyond the order of the additions.

Along that set the amount is handed out as in `Rapids.Lib.Allot`, where an owner claims its
**fair share**: its part of the amount, rounded up. The fair shares add up to no less than
the amount, so all of it is handed out.
-/

namespace Rapids.Token

open Rapids.Lib OrdMap

/-! ### Any walk over the tally map -/

/-- What every address but the sender owns, in the order of the walk. -/
def ownersIn (walk : List (Address × CMPTally)) (sender : Address) (p : PropertyId) :
    List (Int × Address) :=
  (walk.filter fun e => e.1 != sender).map fun e => (CMPTally.owned e.2 p, e.1)

/-- What the loop adds up over a part of the walk. -/
def totalIn (walk : List (Address × CMPTally)) (sender : Address) (p : PropertyId) : Int :=
  ((ownersIn walk sender p).map Prod.fst).sum

/-- `STO_GetReceivers`, for a walk over the tally map. -/
def stoReceivers (walk : List (Address × CMPTally)) (sender : Address) (p : PropertyId) (amount : Int) :
    Option (List (Int × Address)) := do
  let owners := ((ownersIn walk sender p).filter fun o => decide (0 < o.1)).insertionSort ownerBefore
  let receivers ← stoAllocate amount (totalIn walk sender p) owners 0
  return receivers.insertionSort ownerBefore

theorem stoGetReceivers_eq (s : State) (sender : Address) (p : PropertyId) (amount : Int) :
    stoGetReceivers s sender p amount = stoReceivers s.tally.entries sender p amount := rfl

/-! ### What there is to distribute to -/

/-- No bucket but the pending one is negative; `updateMoney` refuses to make it so. -/
def NonnegTally (m : TallyMap) : Prop :=
  ∀ a t, m.find? a = some t → ∀ p tt, tt ≠ .pending → 0 ≤ CMPTally.getMoney t p tt

/-- What an address owns. -/
def holding (m : TallyMap) (a : Address) (p : PropertyId) : Int :=
  CMPTally.owned ((m.find? a).getD ∅) p

def heldByOthers (m : TallyMap) (sender : Address) (p : PropertyId) : Int := held m p - holding m sender p

/-- A part of the amount in proportion to what is owned, rounded up. -/
def fairShare (amount total owns : Int) : Int := ⌈((owns * amount : Int) : ℚ) / total⌉

/-- The fair share of an address. -/
def shareOf (m : TallyMap) (sender : Address) (p : PropertyId) (amount : Int) (a : Address) : Int :=
  fairShare amount (heldByOthers m sender p) (holding m a p)

/-- **An exact distribution.** The whole amount goes to other holders, to each at least one
token and no more than its fair share. At most one receiver gets less than that, and those
who get nothing come after everyone who gets something. -/
structure ExactShares (m : TallyMap) (sender : Address) (p : PropertyId) (amount : Int)
    (rs : List (Int × Address)) : Prop where
  sum : (rs.map Prod.fst).sum = amount
  distinct : (rs.map Prod.snd).Nodup
  holders : ∀ r ∈ rs, r.2 ≠ sender ∧ 0 < holding m r.2 p
  bounded : ∀ r ∈ rs, 1 ≤ r.1 ∧ r.1 ≤ shareOf m sender p amount r.2
  short : ∀ r ∈ rs, ∀ r' ∈ rs, r.1 < shareOf m sender p amount r.2 →
    r'.1 < shareOf m sender p amount r'.2 → r = r'
  rest : ∀ a, a ≠ sender → 0 < holding m a p → (∀ r ∈ rs, r.2 ≠ a) →
    ∀ r ∈ rs, ownerBefore (holding m r.2 p, r.2) (holding m a p, a)

section
variable {m : TallyMap} {walk : List (Address × CMPTally)} {sender a : Address} {p : PropertyId}
  {amount total owns x : Int}

theorem NonnegTally.owned_nonneg (hm : NonnegTally m) (p : PropertyId) {e : Address × CMPTally}
    (he : e ∈ m.entries) : 0 ≤ CMPTally.owned e.2 p := by
  have hbucket := hm e.1 e.2 (mem_entries_iff.mp he) p
  have hbalance := hbucket .balance (by decide)
  have hselloffer := hbucket .sellofferReserve (by decide)
  have haccept := hbucket .acceptReserve (by decide)
  have hmetadex := hbucket .metadexReserve (by decide)
  simp only [CMPTally.getMoney, BalanceRecord.get] at hbalance hselloffer haccept hmetadex
  simp only [CMPTally.owned, BalanceRecord.total]
  omega

/-! ### The owners -/

theorem holding_of_mem {e : Address × CMPTally} (he : e ∈ m.entries) :
    holding m e.1 p = CMPTally.owned e.2 p := by
  rw [holding, mem_entries_iff.mp he, Option.getD_some]

variable {o : Int × Address} {owners : List (Int × Address)}

theorem mem_ownersIn (hwalk : walk.Perm m.entries) (ho : o ∈ ownersIn walk sender p) :
    o.2 ≠ sender ∧ o.1 = holding m o.2 p := by
  obtain ⟨e, he, rfl⟩ := List.mem_map.mp ho
  obtain ⟨hmem, hne⟩ := List.mem_filter.mp he
  exact ⟨by simpa using hne, (holding_of_mem (hwalk.mem_iff.mp hmem)).symm⟩

theorem holding_mem_ownersIn (hwalk : walk.Perm m.entries) (ha : a ≠ sender) (hpos : 0 < holding m a p) :
    (holding m a p, a) ∈ ownersIn walk sender p := by
  have hread : holding m a p = CMPTally.owned ((m.find? a).getD ∅) p := rfl
  cases hfind : m.find? a with
  | none =>
    rw [hread, hfind] at hpos
    simp at hpos
  | some t =>
    have hmem : (a, t) ∈ m.entries := mem_entries_iff.mpr hfind
    refine List.mem_map.mpr ⟨(a, t), List.mem_filter.mpr ⟨hwalk.mem_iff.mpr hmem, by simpa using ha⟩, ?_⟩
    rw [hread, hfind]
    rfl

theorem ownersIn_perm (hwalk : walk.Perm m.entries) :
    (ownersIn walk sender p).Perm (ownersIn m.entries sender p) :=
  (hwalk.filter _).map _

theorem totalIn_eq (hwalk : walk.Perm m.entries) : totalIn walk sender p = heldByOthers m sender p := by
  have herase : m.erase sender = m.filter fun e => e.1 != sender := by
    refine ext_find? fun k => ?_
    rw [find?_erase, find?_filter]
    by_cases hk : k = sender
    · simp [hk]
    · cases m.find? k with
      | none => simp [hk]
      | some t => simp [Option.filter_some, hk]
  have hsum := sumBy_erase m (fun _ t => CMPTally.owned t p) sender
  have hholding : weightAt (fun (_ : Address) t => CMPTally.owned t p) sender (m.find? sender) =
      holding m sender p := by
    unfold holding
    cases m.find? sender with
    | none => simp
    | some t => rfl
  rw [herase, hholding] at hsum
  have hperm := ((@ownersIn_perm m walk sender p hwalk).map Prod.fst).sum_eq
  rw [totalIn, hperm, heldByOthers, held, ← hsum, sumBy, sumEntries, ownersIn, List.map_map]
  rfl

theorem totalIn_prefix (hm : NonnegTally m) (hwalk : walk.Perm m.entries) (htotal : held m p ≤ i64Max)
    {seen : List (Address × CMPTally)} (hseen : seen <+: walk) :
    0 ≤ totalIn seen sender p ∧ totalIn seen sender p ≤ i64Max := by
  obtain ⟨unseen, rfl⟩ := hseen
  have hnonneg : ∀ part : List (Address × CMPTally), (∀ e ∈ part, e ∈ m.entries) →
      0 ≤ totalIn part sender p := by
    intro part hpart
    refine List.sum_nonneg fun x hx => ?_
    obtain ⟨o, ho, rfl⟩ := List.mem_map.mp hx
    obtain ⟨e, he, rfl⟩ := List.mem_map.mp ho
    exact hm.owned_nonneg p (hpart e (List.mem_of_mem_filter he))
  have hsplit : totalIn (seen ++ unseen) sender p = totalIn seen sender p + totalIn unseen sender p := by
    simp [totalIn, ownersIn]
  rw [totalIn_eq hwalk] at hsplit
  have hseen := hnonneg seen fun e he => hwalk.mem_iff.mp (List.mem_append_left _ he)
  have hunseen := hnonneg unseen fun e he => hwalk.mem_iff.mp (List.mem_append_right _ he)
  have hsender : 0 ≤ holding m sender p := by
    unfold holding
    cases hfind : m.find? sender with
    | none => simp
    | some t => exact hm.owned_nonneg p (mem_entries_iff.mpr hfind)
  unfold heldByOthers at hsplit
  omega

/-! ### The set of owners -/

instance : Std.Total ownerBefore :=
  ⟨fun a b => by
    unfold ownerBefore
    rcases lt_trichotomy a.1 b.1 with h | h | h
    · exact Or.inr (Or.inl h)
    · exact (le_total a.2 b.2).imp (fun hle => Or.inr ⟨h, hle⟩) fun hle => Or.inr ⟨h.symm, hle⟩
    · exact Or.inl (Or.inl h)⟩

instance : IsTrans (Int × Address) ownerBefore :=
  ⟨fun a b c hab hbc => by
    unfold ownerBefore at *
    rcases hab with hab | ⟨hab, hab'⟩ <;> rcases hbc with hbc | ⟨hbc, hbc'⟩
    · exact Or.inl (hbc.trans hab)
    · exact Or.inl (hbc ▸ hab)
    · exact Or.inl (hab ▸ hbc)
    · exact Or.inr ⟨hab.trans hbc, hab'.trans hbc'⟩⟩

theorem ownerBefore_antisymm {a b : Int × Address} (hab : ownerBefore a b) (hba : ownerBefore b a) :
    a = b := by
  unfold ownerBefore at hab hba
  rcases hab with hab | ⟨hab, hab'⟩ <;> rcases hba with hba | ⟨hba, hba'⟩
  · exact absurd hab hba.not_gt
  · omega
  · omega
  · exact Prod.ext hab (le_antisymm hab' hba')

theorem insertionSort_ownerBefore_eq {l l' : List (Int × Address)} (h : l.Perm l') :
    l.insertionSort ownerBefore = l'.insertionSort ownerBefore :=
  List.Perm.eq_of_pairwise (fun _ _ _ _ => ownerBefore_antisymm) (List.pairwise_insertionSort _ _)
    (List.pairwise_insertionSort _ _)
    ((List.perm_insertionSort _ _).trans (h.trans (List.perm_insertionSort _ _).symm))

/-- The set of owners, from its end. -/
def ownerSet (m : TallyMap) (sender : Address) (p : PropertyId) : List (Int × Address) :=
  ((ownersIn m.entries sender p).filter fun o => decide (0 < o.1)).insertionSort ownerBefore

theorem mem_ownerSet_iff :
    o ∈ ownerSet m sender p ↔ o.2 ≠ sender ∧ o.1 = holding m o.2 p ∧ 0 < o.1 := by
  rw [ownerSet, List.mem_insertionSort, List.mem_filter, decide_eq_true_eq]
  constructor
  · rintro ⟨hmem, hpos⟩
    exact ⟨(mem_ownersIn (List.Perm.refl _) hmem).1, (mem_ownersIn (List.Perm.refl _) hmem).2, hpos⟩
  · rintro ⟨hne, hown, hpos⟩
    refine ⟨?_, hpos⟩
    have hmem := holding_mem_ownersIn (List.Perm.refl _) hne (hown ▸ hpos)
    rw [← hown] at hmem
    exact hmem

theorem ownerSet_nodup : ((ownerSet m sender p).map Prod.snd).Nodup := by
  refine ((List.perm_insertionSort ownerBefore _).map Prod.snd).nodup_iff.mpr ?_
  have hsub : (((ownersIn m.entries sender p).filter fun o => decide (0 < o.1)).map Prod.snd).Sublist
      (m.entries.map Prod.fst) := by
    refine (List.filter_sublist.map Prod.snd).trans ?_
    rw [ownersIn, List.map_map]
    exact List.filter_sublist.map Prod.fst
  refine hsub.nodup ?_
  rw [List.nodup_map_iff_inj_on m.sorted.nodup]
  intro e he e' he' hkey
  have hval := mem_entries_iff.mp he
  rw [hkey, mem_entries_iff.mp he', Option.some.injEq] at hval
  exact Prod.ext hkey hval.symm

theorem sum_ownerSet (hm : NonnegTally m) :
    ((ownerSet m sender p).map Prod.fst).sum = heldByOthers m sender p := by
  rw [ownerSet, ((List.perm_insertionSort ownerBefore _).map Prod.fst).sum_eq,
    ← totalIn_eq (List.Perm.refl _), totalIn]
  have hnonneg : ∀ o ∈ ownersIn m.entries sender p, 0 ≤ o.1 := by
    intro o ho
    obtain ⟨e, he, rfl⟩ := List.mem_map.mp ho
    exact hm.owned_nonneg p (List.mem_of_mem_filter he)
  revert hnonneg
  generalize ownersIn m.entries sender p = l
  intro hnonneg
  induction l with
  | nil => rfl
  | cons o rest ih =>
    have ho := hnonneg o (.head _)
    have ih := ih fun o' ho' => hnonneg o' (.tail _ ho')
    by_cases hpos : 0 < o.1
    · rw [List.filter_cons, if_pos (decide_eq_true hpos), List.map_cons, List.sum_cons, ih,
        List.map_cons, List.sum_cons]
    · rw [List.filter_cons, if_neg (by simpa using hpos), ih, List.map_cons, List.sum_cons]
      omega

/-! ### The shares -/

theorem fairShare_le (hamount : 0 ≤ amount) (howns : owns ≤ total) (htotal : 0 < total) :
    fairShare amount total owns ≤ amount := by
  have htotal : (0 : ℚ) < total := Int.cast_pos.mpr htotal
  rw [fairShare, Int.ceil_le, div_le_iff₀ htotal]
  have hmul : owns * amount ≤ amount * total := by
    rw [mul_comm amount]
    exact mul_le_mul_of_nonneg_right howns hamount
  exact_mod_cast hmul

theorem fairShare_pos (hamount : 0 < amount) (howns : 0 < owns) (htotal : 0 < total) :
    0 < fairShare amount total owns := by
  have htotal : (0 : ℚ) < total := Int.cast_pos.mpr htotal
  exact Int.ceil_pos.mpr (div_pos (Int.cast_pos.mpr (mul_pos howns hamount)) htotal)

theorem le_fairShare (htotal : 0 < total) : owns * amount ≤ fairShare amount total owns * total := by
  have htotal : (0 : ℚ) < total := Int.cast_pos.mpr htotal
  have hceil : ((owns * amount : Int) : ℚ) ≤ ((fairShare amount total owns * total : Int) : ℚ) := by
    rw [Int.cast_mul (fairShare amount total owns), ← div_le_iff₀ htotal]
    exact Int.le_ceil _
  exact Int.cast_le.mp hceil

/-- The fair shares of the owners. -/
def claims (amount total : Int) (owners : List (Int × Address)) : List (Int × Address) :=
  owners.map fun o => (fairShare amount total o.1, o.2)

theorem le_sum_claims (htotal : 0 < total)
    (hsum : (owners.map Prod.fst).sum = total) : amount ≤ ((claims amount total owners).map Prod.fst).sum := by
  have hle : (owners.map Prod.fst).sum * amount ≤ ((claims amount total owners).map Prod.fst).sum * total := by
    clear hsum
    induction owners with
    | nil => simp [claims]
    | cons o rest ih =>
      have ho := @le_fairShare amount total o.1 htotal
      have hcons : ((claims amount total (o :: rest)).map Prod.fst).sum =
          fairShare amount total o.1 + ((claims amount total rest).map Prod.fst).sum := by
        simp [claims]
      rw [hcons, List.map_cons, List.sum_cons, add_mul, add_mul]
      exact add_le_add ho ih
  rw [hsum, mul_comm] at hle
  exact le_of_mul_le_mul_right hle htotal

/-- The loop over the owners serves their claims in turn, and no assertion fails. -/
theorem stoAllocate_eq (hamount : 0 ≤ amount) (hfits : amount ≤ i64Max) (htotal : 0 < total)
    (howners : ∀ o ∈ owners, 0 ≤ o.1 ∧ o.1 ≤ total) (sent : Int) :
    stoAllocate amount total owners sent = some (allot (amount - sent) (claims amount total owners)) := by
  induction owners generalizing sent with
  | nil => rfl
  | cons o rest ih =>
    obtain ⟨owns, address⟩ := o
    obtain ⟨hnonneg, hle⟩ := howners _ (.head _)
    have ih := ih fun o ho => howners o (.tail _ ho)
    obtain ⟨q, hq, hshare⟩ := divideAndRoundUp_mul hnonneg hamount htotal
    have hshare : (q : Int) = fairShare amount total owns := hshare
    have h64 := convertTo64_of_le hshare ((fairShare_le hamount hle htotal).trans hfits)
    have hmin : (if amount - sent < fairShare amount total owns then amount - sent
        else fairShare amount total owns) = min (fairShare amount total owns) (amount - sent) := by
      split_ifs
      · omega
      · omega
    simp only [stoAllocate, convertTo256_of_nonneg hnonneg, convertTo256_of_nonneg hamount,
      convertTo256_of_nonneg htotal.le, Option.bind_eq_bind, Option.bind_some, hq, h64, hmin, claims,
      List.map_cons, allot]
    split_ifs with hpos
    · rw [ih, Option.bind_some, sub_add_eq_sub_sub]
      rfl
    · rfl

theorem mem_claims_iff {c : Int × Address} :
    c ∈ claims amount total owners ↔ ∃ o ∈ owners, o.2 = c.2 ∧ c.1 = fairShare amount total o.1 := by
  rw [claims, List.mem_map]
  constructor
  · rintro ⟨o, ho, rfl⟩
    exact ⟨o, ho, rfl, rfl⟩
  · rintro ⟨o, ho, hwho, hclaim⟩
    exact ⟨o, ho, Prod.ext hclaim.symm hwho⟩

/-! ### Receivers -/

/-- Who receives what. -/
def shares (m : TallyMap) (sender : Address) (p : PropertyId) (amount : Int) : List (Int × Address) :=
  (allot amount (claims amount (heldByOthers m sender p) (ownerSet m sender p))).insertionSort ownerBefore

theorem mem_shares_iff {r : Int × Address} : r ∈ shares m sender p amount ↔
    r ∈ allot amount (claims amount (heldByOthers m sender p) (ownerSet m sender p)) :=
  List.mem_insertionSort _

theorem ownerSet_le (hm : NonnegTally m) (ho : o ∈ ownerSet m sender p) :
    0 < o.1 ∧ o.1 ≤ heldByOthers m sender p := by
  refine ⟨(mem_ownerSet_iff.mp ho).2.2, ?_⟩
  rw [← sum_ownerSet hm]
  refine List.single_le_sum (fun x hx => ?_) _ (List.mem_map_of_mem ho)
  obtain ⟨o', ho', rfl⟩ := List.mem_map.mp hx
  exact (mem_ownerSet_iff.mp ho').2.2.le

theorem heldByOthers_pos_iff (hm : NonnegTally m) :
    0 < heldByOthers m sender p ↔ ∃ a, a ≠ sender ∧ 0 < holding m a p := by
  constructor
  · intro hpos
    cases hset : ownerSet m sender p with
    | nil =>
      rw [← sum_ownerSet hm, hset] at hpos
      exact absurd hpos (lt_irrefl 0)
    | cons o rest =>
      have ho := mem_ownerSet_iff.mp (show o ∈ ownerSet m sender p by rw [hset]; exact .head _)
      exact ⟨o.2, ho.1, ho.2.1 ▸ ho.2.2⟩
  · rintro ⟨a, ha, hpos⟩
    have ho : (holding m a p, a) ∈ ownerSet m sender p := mem_ownerSet_iff.mpr ⟨ha, rfl, hpos⟩
    exact lt_of_lt_of_le hpos (ownerSet_le hm ho).2

theorem stoReceivers_eq (hm : NonnegTally m) (hamount : 0 ≤ amount) (hfits : amount ≤ i64Max)
    (hwalk : walk.Perm m.entries) :
    stoReceivers walk sender p amount = some (shares m sender p amount) := by
  have hset : ((ownersIn walk sender p).filter fun o => decide (0 < o.1)).insertionSort ownerBefore =
      ownerSet m sender p := insertionSort_ownerBefore_eq ((ownersIn_perm hwalk).filter _)
  have hloop : stoAllocate amount (heldByOthers m sender p) (ownerSet m sender p) 0 =
      some (allot amount (claims amount (heldByOthers m sender p) (ownerSet m sender p))) := by
    cases hempty : ownerSet m sender p with
    | nil => rfl
    | cons first rest =>
      have hfirst := ownerSet_le hm (show first ∈ ownerSet m sender p by rw [hempty]; exact .head _)
      have howners : ∀ o ∈ first :: rest, 0 ≤ o.1 ∧ o.1 ≤ heldByOthers m sender p := fun o ho =>
        ⟨(ownerSet_le hm (hempty ▸ ho)).1.le, (ownerSet_le hm (hempty ▸ ho)).2⟩
      rw [stoAllocate_eq hamount hfits (hfirst.1.trans_le hfirst.2) howners, sub_zero]
  unfold stoReceivers
  dsimp only
  rw [totalIn_eq hwalk, hset, hloop]
  rfl

theorem shares_of_no_holder (hm : NonnegTally m) (hnone : ¬ 0 < heldByOthers m sender p) :
    shares m sender p amount = [] := by
  cases hset : ownerSet m sender p with
  | nil =>
    rw [shares, hset]
    rfl
  | cons first rest =>
    have hfirst := ownerSet_le hm (show first ∈ ownerSet m sender p by rw [hset]; exact .head _)
    exact absurd (hfirst.1.trans_le hfirst.2) hnone

theorem shares_zero : shares m sender p 0 = [] := by
  rw [shares, allot_of_nonpos le_rfl]
  rfl

theorem sum_shares (hm : NonnegTally m) (hholder : 0 < heldByOthers m sender p) (hamount : 0 ≤ amount) :
    ((shares m sender p amount).map Prod.fst).sum = amount := by
  rw [shares, ((List.perm_insertionSort ownerBefore _).map Prod.fst).sum_eq]
  rcases eq_or_lt_of_le hamount with rfl | hpos
  · rw [allot_of_nonpos le_rfl]
    rfl
  · have hclaims : ∀ c ∈ claims amount (heldByOthers m sender p) (ownerSet m sender p), 0 < c.1 := by
      intro c hc
      obtain ⟨o, ho, -, hclaim⟩ := mem_claims_iff.mp hc
      rw [hclaim]
      exact fairShare_pos hpos (ownerSet_le hm ho).1 hholder
    rw [sum_allot hamount hclaims]
    exact min_eq_left (le_sum_claims hholder (sum_ownerSet hm))

theorem claim_eq {c : Int × Address}
    (hc : c ∈ claims amount (heldByOthers m sender p) (ownerSet m sender p)) :
    c.2 ≠ sender ∧ 0 < holding m c.2 p ∧ c.1 = shareOf m sender p amount c.2 := by
  obtain ⟨o, ho, hwho, hclaim⟩ := mem_claims_iff.mp hc
  obtain ⟨hne, hown, hpos⟩ := mem_ownerSet_iff.mp ho
  rw [← hwho]
  refine ⟨hne, hown ▸ hpos, ?_⟩
  rw [hclaim, hown]
  rfl

/-- The owners come in the order of the set, and the first of them receive something. -/
theorem shares_first {r : Int × Address} (hr : r ∈ shares m sender p amount) (ha : a ≠ sender)
    (hpos : 0 < holding m a p) (hnot : ∀ r ∈ shares m sender p amount, r.2 ≠ a) :
    ownerBefore (holding m r.2 p, r.2) (holding m a p, a) := by
  have hnames : (claims amount (heldByOthers m sender p) (ownerSet m sender p)).map Prod.snd =
      (ownerSet m sender p).map Prod.snd := by
    rw [claims, List.map_map]
    rfl
  have hprefix := allot_claimants_prefix amount (claims amount (heldByOthers m sender p) (ownerSet m sender p))
  rw [hnames, List.prefix_iff_eq_take, ← List.map_take] at hprefix
  set served := (ownerSet m sender p).take
    ((allot amount (claims amount (heldByOthers m sender p) (ownerSet m sender p))).map Prod.snd).length
    with hserved
  have hsplit : served ++ (ownerSet m sender p).drop
      ((allot amount (claims amount (heldByOthers m sender p) (ownerSet m sender p))).map Prod.snd).length =
      ownerSet m sender p := List.take_append_drop _ _
  have hsorted : (ownerSet m sender p).Pairwise ownerBefore := List.pairwise_insertionSort _ _
  rw [← hsplit] at hsorted
  have hown : ∀ o ∈ served, o = (holding m o.2 p, o.2) := fun o ho =>
    Prod.ext (mem_ownerSet_iff.mp (List.mem_of_mem_take ho)).2.1 rfl
  refine (List.pairwise_append.mp hsorted).2.2 _ ?_ _ ?_
  · have hmem : r.2 ∈ served.map Prod.snd := hprefix ▸ List.mem_map_of_mem (mem_shares_iff.mp hr)
    obtain ⟨o, ho, hwho⟩ := List.mem_map.mp hmem
    have heq := hown o ho
    rw [hwho] at heq
    exact heq ▸ ho
  · have hmem : (holding m a p, a) ∈ ownerSet m sender p := mem_ownerSet_iff.mpr ⟨ha, rfl, hpos⟩
    rw [← hsplit, List.mem_append] at hmem
    refine hmem.resolve_left fun hin => ?_
    have hname : a ∈ (allot amount (claims amount (heldByOthers m sender p)
        (ownerSet m sender p))).map Prod.snd := hprefix ▸ List.mem_map_of_mem hin
    obtain ⟨r', hr', hwho⟩ := List.mem_map.mp hname
    exact hnot r' (mem_shares_iff.mpr hr') hwho

theorem shares_exact (hm : NonnegTally m) (hholder : 0 < heldByOthers m sender p) (hamount : 1 ≤ amount) :
    ExactShares m sender p amount (shares m sender p amount) := by
  have hlast : ∀ r ∈ shares m sender p amount, r.1 < shareOf m sender p amount r.2 →
      (allot amount (claims amount (heldByOthers m sender p) (ownerSet m sender p))).getLast? = some r := by
    intro r hr hshort
    refine eq_getLast_of_not_mem (mem_shares_iff.mp hr) fun hfull => ?_
    rw [(claim_eq hfull).2.2] at hshort
    exact absurd hshort (lt_irrefl _)
  refine ⟨sum_shares hm hholder (by omega), ?_, fun r hr => ?_, fun r hr => ?_,
    fun r hr r' hr' hshort hshort' => ?_, fun a ha hpos hnot r hr => shares_first hr ha hpos hnot⟩
  · have hprefix := allot_claimants_prefix amount
      (claims amount (heldByOthers m sender p) (ownerSet m sender p))
    rw [shares, ((List.perm_insertionSort ownerBefore _).map Prod.snd).nodup_iff]
    refine hprefix.sublist.nodup ?_
    rw [claims, List.map_map]
    exact ownerSet_nodup
  · obtain ⟨x, who⟩ := r
    obtain ⟨-, claim, hc, -⟩ := mem_allot (mem_shares_iff.mp hr)
    exact ⟨(claim_eq hc).1, (claim_eq hc).2.1⟩
  · obtain ⟨x, who⟩ := r
    obtain ⟨hpos, claim, hc, hle⟩ := mem_allot (mem_shares_iff.mp hr)
    exact ⟨hpos, hle.trans (claim_eq hc).2.2.le⟩
  · have heq := (hlast r hr hshort).symm.trans (hlast r' hr' hshort')
    exact Option.some.inj heq

end

/-- **Owner distribution is exact, bounded and independent of the walk.** For every tally
map whose holdings of a property fit 64 bits, every sender beside whom someone holds it, and
every positive 64-bit amount, no assertion fails, the running totals fit 64 bits whatever
the walk, and every walk finds the same exact distribution. -/
theorem sto_receivers_exact {m : TallyMap} {sender : Address} {p : PropertyId} {amount : Int}
    (hm : NonnegTally m) (htotal : held m p ≤ i64Max) (hholder : ∃ a, a ≠ sender ∧ 0 < holding m a p)
    (hamount : 1 ≤ amount) (hfits : amount ≤ i64Max) :
    ∃ rs, ExactShares m sender p amount rs ∧ ∀ walk, walk.Perm m.entries →
      stoReceivers walk sender p amount = some rs ∧
      ∀ seen, seen <+: walk → 0 ≤ totalIn seen sender p ∧ totalIn seen sender p ≤ i64Max := by
  have hpos := (heldByOthers_pos_iff hm).mpr hholder
  refine ⟨shares m sender p amount, shares_exact hm hpos hamount, fun walk hwalk => ⟨?_, fun seen hseen => ?_⟩⟩
  · exact stoReceivers_eq hm (by omega) hfits hwalk
  · exact totalIn_prefix hm hwalk htotal hseen

/-- Three holders of property 3, one of them the sender. -/
def threeHolders : TallyMap :=
  (((∅ : TallyMap).insert "alice" ((∅ : CMPTally).insert 3 { balance := 5, metadexReserve := 2 })).insert "bob"
    ((∅ : CMPTally).insert 3 { balance := 2 })).insert "carol" ((∅ : CMPTally).insert 3 { balance := 7 })

theorem threeHolders_nonneg : NonnegTally threeHolders := by
  intro a t ht q tt _
  have hbuckets : ∀ r : BalanceRecord, 0 ≤ r.balance → 0 ≤ r.sellofferReserve → 0 ≤ r.acceptReserve →
      0 ≤ r.metadexReserve → 0 ≤ r.pending → 0 ≤ r.get tt := by
    intro r h1 h2 h3 h4 h5
    cases tt <;> assumption
  simp only [threeHolders, find?_insert, find?_empty] at ht
  split_ifs at ht
  all_goals
    cases ht
    rw [getMoney_insert]
    split_ifs
    · exact hbuckets _ (by decide) (by decide) (by decide) (by decide) (by decide)
    · simp

/-- Of 4 tokens Alice's fair share is 4: 7 of the 9 tokens that are not Carol's. -/
theorem sto_receivers_of_threeHolders :
    ∃ rs, ExactShares threeHolders "carol" 3 4 rs ∧ ∀ walk, walk.Perm threeHolders.entries →
      stoReceivers walk "carol" 3 4 = some rs ∧
      ∀ seen, seen <+: walk → 0 ≤ totalIn seen "carol" 3 ∧ totalIn seen "carol" 3 ≤ i64Max :=
  sto_receivers_exact threeHolders_nonneg (by decide +kernel) ⟨"alice", by decide +kernel, by decide +kernel⟩
    (by decide) (by decide)

end Rapids.Token
