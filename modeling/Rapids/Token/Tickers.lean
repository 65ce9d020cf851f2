import Rapids.Token.SpInfo

/-!
# Rapids.Token.Tickers

The **three grammars** of tickers, as forms of strings.

Token tickers and sub-tickers are what their expressions say. In the expression
of usernames the dot before `rpd` is not escaped and stands for any character
but a line end, so `abcXrpd` is a username too. No string has two of the forms.
-/

namespace Rapids.Token

variable {s : String} {cs : List Char}

/-- The forms of a ticker: a short word, after an `r` or not. -/
def HasTickerForm (cs : List Char) : Prop :=
  isShortWord isTickerChar cs = true ∨ ∃ n, cs = 'r' :: n ∧ isShortWord isTickerChar n = true

def IsTokenTicker (s : String) : Prop :=
  HasTickerForm s.toList ∧ s ≠ "RPD" ∧ s ≠ "RAPIDS" ∧ s ≠ "RAPIDSNETWORK"

def IsSubTicker (s : String) : Prop :=
  ∃ root sub, s.toList = root ++ '#' :: sub ∧ HasTickerForm root ∧ isShortWord isTickerChar sub = true

/-- A name that may stand before the ending of a username. -/
def IsName (n : List Char) : Prop :=
  isShortWord isUsernameChar n = true ∧ n ≠ "rapids".toList ∧ n ≠ "rpd".toList

def IsUsername (s : String) : Prop := ∃ n, s.toList = n ++ ".rpd".toList ∧ IsName n

/-- A name with another character in the place of the dot. -/
def IsMisspelt (s : String) : Prop :=
  ∃ n c, s.toList = n ++ c :: "rpd".toList ∧ c ≠ '.' ∧ c ≠ '\n' ∧ c ≠ '\r' ∧ IsName n

/-! ### The expressions -/

theorem mem_of_isShortWord {f : Char → Bool} {c : Char} (h : isShortWord f cs = true) (hc : c ∈ cs) :
    f c = true := by
  unfold isShortWord at h
  simp only [Bool.and_eq_true, List.all_eq_true] at h
  exact h.2 c hc

theorem isTickerWord_iff : isTickerWord cs = true ↔ HasTickerForm cs := by
  unfold isTickerWord HasTickerForm
  split
  · next cs' =>
    refine ⟨fun h => .inr ⟨cs', rfl, h⟩, ?_⟩
    rintro (h | ⟨n, heq, h⟩)
    · exact absurd (mem_of_isShortWord h (.head _)) (by decide)
    · cases heq
      exact h
  · next hne =>
    refine ⟨.inl, fun h => h.resolve_right ?_⟩
    rintro ⟨n, heq, -⟩
    exact hne n heq

theorem mem_of_hasTickerForm {c : Char} (h : HasTickerForm cs) (hc : c ∈ cs) :
    c = 'r' ∨ isTickerChar c = true := by
  rcases h with h | ⟨n, rfl, h⟩
  · exact .inr (mem_of_isShortWord h hc)
  · exact (List.mem_cons.mp hc).imp_right (mem_of_isShortWord h)

theorem not_mem_of_hasTickerForm (h : HasTickerForm cs) : '#' ∉ cs ∧ 'd' ∉ cs :=
  ⟨fun hc => absurd (mem_of_hasTickerForm h hc) (by decide),
    fun hc => absurd (mem_of_hasTickerForm h hc) (by decide)⟩

theorem isTokenTickerValid_iff : isTokenTickerValid s = true ↔ IsTokenTicker s := by
  simp [isTokenTickerValid, isTickerWord_iff, IsTokenTicker, and_assoc]

theorem isSubTickerValid_iff : isSubTickerValid s = true ↔ IsSubTicker s := by
  unfold isSubTickerValid IsSubTicker
  constructor
  · intro h
    split at h
    · next root sub hsplit =>
      rw [Bool.and_eq_true, isTickerWord_iff] at h
      refine ⟨root, sub, ?_, h⟩
      rw [← @List.intercalate_splitOn _ s.toList _ _ '#', hsplit]
      simp [List.intercalate]
    · cases h
  · rintro ⟨root, sub, heq, hroot, hsub⟩
    rw [heq, List.splitOn_append_cons_self_of_not_mem (not_mem_of_hasTickerForm hroot).1,
      List.splitOn_eq_singleton (not_mem_of_hasTickerForm (.inl hsub)).1]
    exact Bool.and_eq_true_iff.mpr ⟨isTickerWord_iff.mpr hroot, hsub⟩

theorem isDotRpd_append (pre : List Char → Bool) (n : List Char) (c : Char) :
    isDotRpd pre (n ++ [c, 'r', 'p', 'd']) = (c != '\n' && c != '\r' && pre n) := by
  simp [isDotRpd]

theorem exists_of_isDotRpd {pre : List Char → Bool} (h : isDotRpd pre cs = true) :
    ∃ n c, cs = n ++ c :: "rpd".toList := by
  unfold isDotRpd at h
  split at h
  · next c rest hrev =>
    refine ⟨rest.reverse, c, ?_⟩
    rw [← List.reverse_reverse cs, hrev]
    simp
  · cases h

theorem isUsernameValid_iff : isUsernameValid s = true ↔ IsUsername s ∨ IsMisspelt s := by
  have hat : ∀ n c, s.toList = n ++ c :: "rpd".toList →
      (isUsernameValid s = true ↔ c ≠ '\n' ∧ c ≠ '\r' ∧ IsName n) := fun n c heq => by
    simp only [String.reduceToList] at heq
    by_cases hn : c = '\n'
    · simp [isUsernameValid, heq, isDotRpd_append, hn]
    · by_cases hr : c = '\r'
      · simp [isUsernameValid, heq, isDotRpd_append, hr]
      · simp [isUsernameValid, heq, isDotRpd_append, IsName, hn, hr]
  have hdot : ∀ n : List Char, n ++ ".rpd".toList = n ++ '.' :: "rpd".toList := by simp
  constructor
  · intro h
    obtain ⟨n, c, heq⟩ := exists_of_isDotRpd (Bool.and_eq_true_iff.mp h).1
    obtain ⟨hn, hr, hname⟩ := (hat n c heq).mp h
    by_cases hc : c = '.'
    · exact .inl ⟨n, by rw [heq, hc, hdot], hname⟩
    · exact .inr ⟨n, c, heq, hc, hn, hr, hname⟩
  · rintro (⟨n, heq, hname⟩ | ⟨n, c, heq, -, hn, hr, hname⟩)
    · exact (hat n '.' (heq.trans (hdot n))).mpr ⟨by decide, by decide, hname⟩
    · exact (hat n c heq).mpr ⟨hn, hr, hname⟩

theorem not_isMisspelt (h : IsUsername s) : ¬ IsMisspelt s := by
  rintro ⟨n, c, heq, hc, -⟩
  obtain ⟨n', heq', -⟩ := h
  have hsame := heq'.symm.trans heq
  simp only [String.reduceToList] at hsame
  exact hc (List.cons.inj (List.append_inj_right' hsame rfl)).1.symm

theorem mem_of_isUsernameValid (h : isUsernameValid s = true) : 'd' ∈ s.toList := by
  obtain ⟨n, c, heq⟩ := exists_of_isDotRpd (Bool.and_eq_true_iff.mp h).1
  simp [heq]

theorem mem_of_isSubTicker (h : IsSubTicker s) : '#' ∈ s.toList ∧ 'd' ∉ s.toList := by
  obtain ⟨root, sub, heq, hroot, hsub⟩ := h
  have hd := (not_mem_of_hasTickerForm hroot).2
  have hd' := (not_mem_of_hasTickerForm (.inl hsub)).2
  simp [heq, hd, hd']

/-- The grammars of tickers. -/
structure GrammarsExact (s : String) : Prop where
  username : isUsernameValid s = true ↔ IsUsername s
  token : isTokenTickerValid s = true ↔ IsTokenTicker s
  sub : isSubTickerValid s = true ↔ IsSubTicker s
  /-- The branches of `logicMath_CreatePropertyFixed` exclude each other. -/
  exclusive : ¬ (isTokenTickerValid s = true ∧ isUsernameValid s = true) ∧
    ¬ (isTokenTickerValid s = true ∧ isSubTickerValid s = true) ∧
    ¬ (isUsernameValid s = true ∧ isSubTickerValid s = true)

/-- Each test accepts its form and no string has two, but for a misspelt
username, which is accepted. -/
theorem grammarsExact_iff (s : String) : GrammarsExact s ↔ ¬ IsMisspelt s := by
  constructor
  · intro h hm
    exact not_isMisspelt (h.username.mp (isUsernameValid_iff.mpr (.inr hm))) hm
  · intro hm
    refine ⟨isUsernameValid_iff.trans (or_iff_left hm), isTokenTickerValid_iff, isSubTickerValid_iff,
      ?_, ?_, ?_⟩
    · rintro ⟨htoken, hname⟩
      exact (not_mem_of_hasTickerForm (isTokenTickerValid_iff.mp htoken).1).2 (mem_of_isUsernameValid hname)
    · rintro ⟨htoken, hsub⟩
      exact (not_mem_of_hasTickerForm (isTokenTickerValid_iff.mp htoken).1).1
        (mem_of_isSubTicker (isSubTickerValid_iff.mp hsub)).1
    · rintro ⟨hname, hsub⟩
      exact (mem_of_isSubTicker (isSubTickerValid_iff.mp hsub)).2 (mem_of_isUsernameValid hname)

theorem username_without_dot : isUsernameValid "abcXrpd" = true ∧ ¬ IsUsername "abcXrpd" := by
  refine ⟨by decide +kernel, ?_⟩
  rintro ⟨n, heq, -⟩
  simp only [String.reduceToList] at heq
  exact absurd (@List.append_inj_right' _ ['a', 'b', 'c'] _ _ _ heq rfl) (by decide)

end Rapids.Token
