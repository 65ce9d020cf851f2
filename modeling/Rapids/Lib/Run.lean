import Mathlib.Tactic.SplitIfs

/-!
# Rapids.Lib.Run

**Runs** of a partial step function: fold a list of events over a state, where
a refused event ends the run. `guarded` restricts a step function to the events
that meet a condition on the state they find, so a claim about all runs whose
steps meet a condition is a claim about all runs of a guarded step.
-/

namespace Rapids.Lib

section
variable {σ ε : Type} {step : σ → ε → Option σ} {s s' : σ} {es : List ε}

/-- Process events from a state, while none is refused. -/
def run (step : σ → ε → Option σ) (s : σ) (es : List ε) : Option σ := es.foldlM step s

@[simp] theorem run_nil (step : σ → ε → Option σ) (s : σ) : run step s [] = some s := rfl

theorem run_cons (e : ε) : run step s (e :: es) = (step s e).bind fun s₁ => run step s₁ es := by
  simp [run]

theorem run_append (es es' : List ε) :
    run step s (es ++ es') = (run step s es).bind fun s₁ => run step s₁ es' := by
  simp [run]

theorem run_trans {s'' : σ} {es' : List ε} (h : run step s es = some s')
    (h' : run step s' es' = some s'') : run step s (es ++ es') = some s'' := by
  rw [run_append, h, Option.bind_some, h']

/-- What every step with an event of the run preserves holds at the end of the run. -/
theorem run_invariant_mem {I : σ → Prop} (hstep : ∀ s, ∀ e ∈ es, ∀ s', I s → step s e = some s' → I s')
    (hi : I s) (h : run step s es = some s') : I s' := by
  induction es generalizing s with
  | nil =>
    simp only [run_nil, Option.some.injEq] at h
    exact h ▸ hi
  | cons e rest ih =>
    rw [run_cons, Option.bind_eq_some_iff] at h
    obtain ⟨s₁, h1, h2⟩ := h
    exact ih (fun s x hx => hstep s x (List.mem_cons_of_mem e hx))
      (hstep s e (.head _) s₁ hi h1) h2

/-- What every step preserves holds at the end of every run. -/
theorem run_invariant {I : σ → Prop} (hstep : ∀ s e s', I s → step s e = some s' → I s') (hi : I s)
    (h : run step s es = some s') : I s' :=
  run_invariant_mem (fun s e _ => hstep s e) hi h

/-! ### Guarded steps -/

/-- Take a step only if the event meets the condition. -/
def guarded (ok : σ → ε → Bool) (step : σ → ε → Option σ) (s : σ) (e : ε) : Option σ :=
  if ok s e then step s e else none

theorem guarded_eq_some {ok : σ → ε → Bool} {e : ε} :
    guarded ok step s e = some s' ↔ ok s e = true ∧ step s e = some s' := by
  unfold guarded
  split_ifs with h <;> simp [h]

/-- A run that meets the condition is a run. -/
theorem run_of_guarded {ok : σ → ε → Bool} (h : run (guarded ok step) s es = some s') :
    run step s es = some s' := by
  induction es generalizing s with
  | nil => exact h
  | cons e rest ih =>
    simp only [run_cons, Option.bind_eq_some_iff, guarded_eq_some] at h ⊢
    obtain ⟨s₁, ⟨-, h1⟩, h2⟩ := h
    exact ⟨s₁, h1, ih h2⟩

end

/-! ### Along a run -/

section
variable {σ ε : Type} {step : σ → ε → σ}

/-- A condition on each state of a run and the event it takes next. -/
def Along (step : σ → ε → σ) (P : σ → ε → Prop) : σ → List ε → Prop
  | _, [] => True
  | s, e :: es => P s e ∧ Along step P (step s e) es

/-- What a condition and an invariant give at each step they give along the run. -/
theorem Along.imp {P Q : σ → ε → Prop} {I : σ → Prop} (hstep : ∀ s e, I s → P s e → I (step s e))
    (himp : ∀ s e, I s → P s e → Q s e) {s : σ} {es : List ε} (hi : I s) (h : Along step P s es) :
    Along step Q s es := by
  induction es generalizing s with
  | nil => exact trivial
  | cons e rest ih => exact ⟨himp s e hi h.1, ih (hstep s e hi h.1) h.2⟩

end

end Rapids.Lib
