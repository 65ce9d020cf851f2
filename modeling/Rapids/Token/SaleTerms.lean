import Rapids.Token.SpSteps

/-!
# Rapids.Token.SaleTerms

**The terms of a crowdsale stay in range.** What a crowdsale gives for a unit and when it
ends is written once, when its property is created, from numbers that have passed the
checks of that packet. Every later update copies the entry and changes something else: who
issues the property, the grants, how the crowdsale was closed.

So in no run does any entry promise a negative number of tokens, or more than the maximum
(`run_offered`).
-/

namespace Rapids.Token

open Rapids.Lib

/-- All entries are in range. -/
def Offered (s : State) : Prop := ∀ p e, s.sp.entries.find? p = some e → e.InRange

section
variable {s s' : State}

/-- A step that keeps the properties keeps their terms. -/
theorem Offered.of_spStep {f : Address → Int} (h : Offered s) (hstep : SpStep s s' f) : Offered s' := by
  intro p e he
  have hterms := hstep.terms p
  rw [he, Option.map_some] at hterms
  obtain ⟨old, hold, heq⟩ := Option.map_eq_some_iff.mp hterms.symm
  obtain ⟨htokens, hdeadline⟩ := Prod.ext_iff.mp heq
  simp only [SPEntry.terms] at htokens hdeadline
  have hrange := h p old hold
  refine ⟨?_, ?_⟩
  · rw [← htokens]
    exact hrange.numTokens
  · rw [← hdeadline]
    exact hrange.deadline

/-- A new property has terms in range. -/
theorem Offered.of_registers {tx : CMPTransaction} (h : Offered s) (hreg : SpRegisters s s' tx) :
    Offered s' := by
  obtain ⟨info, hinfo, hsp⟩ := hreg.inRange
  intro p e he
  rw [hsp, putSP_entries, OrdMap.find?_insert] at he
  split_ifs at he
  · rwa [← Option.some.inj he]
  · exact h p e he

/-- **In every run all entries are in range.** -/
theorem run_offered {cfg : Config} {es : List Event} {n : Node}
    (hrun : run step (Node.initial cfg) es = some n) : Offered n.state := by
  refine run_invariant (I := fun n : Node => Offered n.state) ?_ ?_ hrun
  · intro n e n' hn hstep
    obtain ⟨-, hhandle, -⟩ := step_eq_some.mp hstep
    rcases handle_spStep hhandle with ⟨f, hquiet⟩ | ⟨tx, env, -, -, hreg⟩
    · exact hn.of_spStep hquiet
    · exact hn.of_registers hreg
  · intro p e he
    cases he

theorem Offered.inRange_of_getSP (h : Offered s) {p : PropertyId} {e : SPEntry} (he : getSP s p = some e) : e.InRange := by
  unfold getSP at he
  split_ifs at he
  · cases he
    have hzero : (0 : Int) ≤ i64Max := by decide
    exact ⟨⟨le_rfl, hzero⟩, hzero⟩
  · exact h p e he

end

end Rapids.Token
