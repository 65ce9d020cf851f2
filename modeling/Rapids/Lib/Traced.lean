import Rapids.Lib.Abort

/-!
# Rapids.Lib.Traced

**Computations that keep a record.** A computation has a result, or a reason why there
is none, and a log of what it did on the way, which is kept if it fails (`Traced`). The
log is as long as the computation got.

`Logs P` says that all entries of the log satisfy `P`, and `Clean P bad` that in
addition the computation does not fail for a bad reason. The rules follow the shape of
the computation; where the log alone is in question, a sequence logs what its two parts
log, the second one only if the first has a result (`logs_bind`).
-/

namespace Rapids.Lib

/-- A result, or why there is none, with a log. -/
structure Traced (τ ε α : Type) where
  log : List τ
  result : Except ε α

namespace Traced

variable {τ ε α β : Type}

instance : Monad (Traced τ ε) where
  pure a := ⟨[], .ok a⟩
  bind x f :=
    match x.result with
    | .error why => ⟨x.log, .error why⟩
    | .ok a => ⟨x.log ++ (f a).log, (f a).result⟩

variable (a : α) (why : ε) (x : Option α)

/-- Stop here. -/
def fail : Traced τ ε α := ⟨[], .error why⟩

/-- A value, and an entry about it. -/
def record (entry : τ) (a : α) : Traced τ ε α := ⟨[entry], .ok a⟩

/-- A step that logs nothing and may fail. -/
def attempt : Traced τ ε α := ⟨[], named why x⟩

@[simp] theorem result_pure : (pure a : Traced τ ε α).result = .ok a := rfl

@[simp] theorem result_fail : (fail why : Traced τ ε α).result = .error why := rfl

@[simp] theorem result_record (entry : τ) (a : α) : (record entry a : Traced τ ε α).result = .ok a := rfl

@[simp] theorem result_attempt :
    (attempt why x : Traced τ ε α).result = named why x := rfl

@[simp] theorem result_bind (x : Traced τ ε α) (f : α → Traced τ ε β) :
    (x >>= f).result = x.result >>= fun a => (f a).result := by
  obtain ⟨log, result⟩ := x
  cases result with
  | error why => rfl
  | ok a => rfl

@[simp] theorem result_ite {c : Prop} [Decidable c] (x y : Traced τ ε α) :
    (if c then x else y).result = if c then x.result else y.result := by
  split_ifs
  · rfl
  · rfl

/-! ### What is logged -/

/-- Do all entries of the log satisfy `P`? -/
def Logs (P : τ → Prop) (x : Traced τ ε α) : Prop := ∀ entry ∈ x.log, P entry

variable {P Q : τ → Prop} {bad : ε → Prop}

theorem Logs.mono {x : Traced τ ε α} (h : Logs P x) (himp : ∀ entry, P entry → Q entry) : Logs Q x :=
  fun entry hentry => himp entry (h entry hentry)

theorem logs_pure : Logs P (pure a : Traced τ ε α) := by
  intro entry hentry
  cases hentry

theorem logs_fail : Logs P (fail why : Traced τ ε α) := by
  intro entry hentry
  cases hentry

theorem logs_attempt : Logs P (attempt why x : Traced τ ε α) := by
  intro entry hentry
  cases hentry

theorem logs_record {entry : τ} {a : α} : Logs P (record entry a : Traced τ ε α) ↔ P entry := by
  constructor
  · intro h
    exact h entry (List.mem_singleton_self _)
  · intro h entry' hentry
    rw [List.mem_singleton.mp hentry]
    exact h

variable {f : α → Traced τ ε β}

/-- **The log of a sequence.** -/
theorem logs_bind {x : Traced τ ε α} :
    Logs P (x >>= f) ↔ Logs P x ∧ ∀ a, x.result = .ok a → Logs P (f a) := by
  obtain ⟨log, result⟩ := x
  cases result with
  | error why =>
    constructor
    · intro h
      exact ⟨h, fun a ha => by cases ha⟩
    · intro h
      exact h.1
  | ok a =>
    have hlog : (Traced.mk log (.ok a) >>= f).log = log ++ (f a).log := rfl
    constructor
    · intro h
      refine ⟨fun entry hentry => h entry ?_, fun a' ha => ?_⟩
      · rw [hlog]
        exact List.mem_append_left _ hentry
      · cases ha
        intro entry hentry
        refine h entry ?_
        rw [hlog]
        exact List.mem_append_right _ hentry
    · intro h entry hentry
      rw [hlog, List.mem_append] at hentry
      rcases hentry with hentry | hentry
      · exact h.1 entry hentry
      · exact h.2 a rfl entry hentry

/-- A step that has a result. -/
theorem logs_bind_ok {x : Traced τ ε α} {a : α} (h : x.result = .ok a) :
    Logs P (x >>= f) ↔ Logs P x ∧ Logs P (f a) := by
  rw [logs_bind, h]
  constructor
  · intro hlogs
    exact ⟨hlogs.1, hlogs.2 a rfl⟩
  · intro hlogs
    refine ⟨hlogs.1, fun a' ha => ?_⟩
    cases ha
    exact hlogs.2

/-! ### Clean computations -/

/-- Only such entries, and no bad failure. -/
def Clean (P : τ → Prop) (bad : ε → Prop) (x : Traced τ ε α) : Prop := Logs P x ∧ Avoids bad x.result

theorem clean_pure : Clean P bad (pure a : Traced τ ε α) := ⟨logs_pure a, avoids_ok a⟩

theorem clean_fail {why : ε} (h : ¬ bad why) : Clean P bad (fail why : Traced τ ε α) := by
  refine ⟨logs_fail why, fun why' hwhy => ?_⟩
  cases hwhy
  exact h

theorem clean_record {entry : τ} {a : α} (h : P entry) : Clean P bad (record entry a : Traced τ ε α) :=
  ⟨logs_record.mpr h, avoids_ok a⟩

theorem clean_attempt {why : ε} {x : Option α} (h : x.isSome = true) :
    Clean P bad (attempt why x : Traced τ ε α) :=
  ⟨logs_attempt why x, avoids_some h⟩

theorem clean_bind {x : Traced τ ε α} (hx : Clean P bad x)
    (hf : ∀ a, x.result = .ok a → Clean P bad (f a)) : Clean P bad (x >>= f) := by
  refine ⟨logs_bind.mpr ⟨hx.1, fun a ha => (hf a ha).1⟩, ?_⟩
  rw [result_bind]
  exact avoids_bind hx.2 fun a ha => (hf a ha).2

theorem clean_ite {c : Prop} [Decidable c] {x y : Traced τ ε α} (hx : c → Clean P bad x)
    (hy : ¬ c → Clean P bad y) : Clean P bad (if c then x else y) := by
  split_ifs with hc
  · exact hx hc
  · exact hy hc

end Traced

end Rapids.Lib
