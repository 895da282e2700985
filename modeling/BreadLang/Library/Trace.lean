import Mathlib.Data.List.Infix

/-!
# Traces

A trace is the list of the events of a run, newest first, so what precedes an
event is the tail after it.  `Each P` says that every event of a trace stands in
the relation `P` to its past.
-/

namespace BreadLang

namespace Trace

variable {ε : Type} {P Q : ε → List ε → Prop} {trace past : List ε} {e : ε}

/-- **Every event of the trace is related to its past.** -/
def Each (P : ε → List ε → Prop) (trace : List ε) : Prop :=
  ∀ e past, (e :: past) <:+ trace → P e past

theorem each_nil : Each P [] := by
  intro e past h
  have hlength := h.length_le
  simp at hlength

theorem each_cons : Each P (e :: past) ↔ P e past ∧ Each P past := by
  constructor
  · intro h
    exact ⟨h e past List.suffix_rfl, fun e' past' h' => h e' past' (h'.trans (past.suffix_cons e))⟩
  · rintro ⟨hnew, hpast⟩ e' past' h
    rcases List.suffix_cons_iff.mp h with heq | h
    · cases heq
      exact hnew
    · exact hpast e' past' h

/-- What holds of every event of a run held at every earlier point of it. -/
theorem Each.of_suffix (h : Each P trace) (hpast : past <:+ trace) : Each P past :=
  fun e past' h' => h e past' (h'.trans hpast)

/-- Two relations to the past that agree on every event of a trace. -/
theorem Each.congr (h : Each (fun e past => P e past ↔ Q e past) trace) :
    Each P trace ↔ Each Q trace := by
  constructor
  · intro hP e past hpast
    exact (h e past hpast).mp (hP e past hpast)
  · intro hQ e past hpast
    exact (h e past hpast).mpr (hQ e past hpast)

/-- A relation that does not look at the past. -/
theorem each_iff_forall_mem {p : ε → Prop} :
    Each (fun e _ => p e) trace ↔ ∀ e ∈ trace, p e := by
  induction trace with
  | nil => simp [each_nil]
  | cons e past ih => rw [each_cons, ih, List.forall_mem_cons]

end Trace

end BreadLang
