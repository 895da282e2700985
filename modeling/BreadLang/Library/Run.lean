import Mathlib.Data.List.Basic

/-!
# Guarded runs and lockstep refinement

A component is a step function that may fail, with a reply for each operation;
its specification is a total step function on an abstract state with the same
replies.  A guard is a condition on the state an operation is called in.

`run_refines` is the induction every refinement result of this development
uses: if each guarded step keeps the relation between the two states and gives
the specified reply, then each run all of whose steps are guarded succeeds with
the specified replies.
-/

namespace BreadLang
namespace Run

variable {S M Op R E : Type}

/-- Execute a list of operations, collecting the replies. -/
def run (step : S → Op → Except E (S × R)) : S → List Op → Except E (S × List R)
  | s, [] => .ok (s, [])
  | s, op :: ops =>
      match step s op with
      | .error e => .error e
      | .ok (s', r) =>
          match run step s' ops with
          | .error e => .error e
          | .ok (s'', rs) => .ok (s'', r :: rs)

/-- Execute the specification of a list of operations. -/
def replay (spec : M → Op → M × R) : M → List Op → M × List R
  | m, [] => (m, [])
  | m, op :: ops =>
      let rest := replay spec (spec m op).1 ops
      (rest.1, (spec m op).2 :: rest.2)

/-- Every step of the run is called in a state that satisfies the guard. -/
def Guarded (step : S → Op → Except E (S × R)) (guard : S → Op → Prop) :
    S → List Op → Prop
  | _, [] => True
  | s, op :: ops =>
      guard s op ∧
        match step s op with
        | .error _ => True
        | .ok (s', _) => Guarded step guard s' ops

/-- A guard that can be decided can be decided along a run. -/
instance decidableGuarded (step : S → Op → Except E (S × R))
    (guard : S → Op → Prop) [∀ s op, Decidable (guard s op)] :
    ∀ s ops, Decidable (Guarded step guard s ops)
  | _, [] => isTrue trivial
  | s, op :: ops =>
      match h : step s op with
      | .error _ => decidable_of_iff (guard s op) (by simp [Guarded, h])
      | .ok (s', _) =>
          have := decidableGuarded step guard s' ops
          decidable_of_iff (guard s op ∧ Guarded step guard s' ops)
            (by simp [Guarded, h])

section Refinement

variable {step : S → Op → Except E (S × R)} {spec : M → Op → M × R}
variable {guard : S → Op → Prop}

/-- **Lockstep refinement.**  The induction is on the operations. -/
theorem run_refines (rel : S → M → Prop) (ops : List Op)
    (hstep : ∀ s m, ∀ op ∈ ops, rel s m → guard s op →
      ∃ s', step s op = .ok (s', (spec m op).2) ∧ rel s' (spec m op).1) :
    ∀ s m, rel s m → Guarded step guard s ops →
      ∃ s', run step s ops = .ok (s', (replay spec m ops).2) ∧
        rel s' (replay spec m ops).1 := by
  induction ops with
  | nil =>
      intro s m hrel _
      exact ⟨s, rfl, hrel⟩
  | cons op ops ih =>
      intro s m hrel hguard
      obtain ⟨hnow, hlater⟩ := hguard
      obtain ⟨s', hs', hrel'⟩ := hstep s m op (by simp) hrel hnow
      rw [hs'] at hlater
      obtain ⟨s'', hs'', hrel''⟩ :=
        ih (fun s m op hop => hstep s m op (List.mem_cons_of_mem _ hop))
          s' (spec m op).1 hrel' hlater
      refine ⟨s'', ?_, hrel''⟩
      rw [run, hs']
      simp only [hs'', replay]

/-- An invariant of guarded steps holds after every guarded run, which does not
fail. -/
theorem run_invariant (inv : S → Prop) (ops : List Op)
    (hstep : ∀ s, ∀ op ∈ ops, inv s → guard s op →
      ∃ s' r, step s op = .ok (s', r) ∧ inv s') :
    ∀ s, inv s → Guarded step guard s ops →
      ∃ s' rs, run step s ops = .ok (s', rs) ∧ inv s' := by
  induction ops with
  | nil =>
      intro s hinv _
      exact ⟨s, [], rfl, hinv⟩
  | cons op ops ih =>
      intro s hinv hguard
      obtain ⟨hnow, hlater⟩ := hguard
      obtain ⟨s', r, hs', hinv'⟩ := hstep s op (by simp) hinv hnow
      rw [hs'] at hlater
      obtain ⟨s'', rs, hs'', hinv''⟩ :=
        ih (fun s op hop => hstep s op (List.mem_cons_of_mem _ hop)) s' hinv' hlater
      refine ⟨s'', r :: rs, ?_, hinv''⟩
      rw [run, hs']
      simp only [hs'']

/-- An invariant of guarded steps, some of which may stop the run. -/
theorem run_invariant_or_stops (inv : S → Prop) (stops : E → Prop) (ops : List Op)
    (hstep : ∀ s op, inv s → guard s op → (∃ e, step s op = .error e ∧ stops e) ∨
      ∃ s' r, step s op = .ok (s', r) ∧ inv s') :
    ∀ s, inv s → Guarded step guard s ops →
      (∃ e, run step s ops = .error e ∧ stops e) ∨
        ∃ s' rs, run step s ops = .ok (s', rs) ∧ inv s' := by
  induction ops with
  | nil =>
      intro s hinv _
      exact .inr ⟨s, [], rfl, hinv⟩
  | cons op ops ih =>
      intro s hinv hguard
      obtain ⟨hnow, hlater⟩ := hguard
      rcases hstep s op hinv hnow with ⟨e, he, hstops⟩ | ⟨s', r, hs', hinv'⟩
      · refine .inl ⟨e, ?_, hstops⟩
        rw [run, he]
      · rw [hs'] at hlater
        rcases ih s' hinv' hlater with ⟨e, he, hstops⟩ | ⟨s'', rs, hs'', hinv''⟩
        · refine .inl ⟨e, ?_, hstops⟩
          rw [run, hs']
          simp only [he]
        · refine .inr ⟨s'', r :: rs, ?_, hinv''⟩
          rw [run, hs']
          simp only [hs'']

/-- A run that succeeds begins with a step that does. -/
theorem run_cons_eq_ok {s s'' : S} {op : Op} {ops : List Op} {rs : List R}
    (hrun : run step s (op :: ops) = .ok (s'', rs)) :
    ∃ s' r rs', step s op = .ok (s', r) ∧ run step s' ops = .ok (s'', rs') ∧ rs = r :: rs' := by
  rw [run] at hrun
  split at hrun
  · cases hrun
  rename_i s' r hs'
  split at hrun
  · cases hrun
  rename_i t rs' ht
  cases hrun
  exact ⟨s', r, rs', hs', ht, rfl⟩

/-- An invariant of the guarded steps that succeed holds after every guarded run that
succeeds. -/
theorem run_preserves (inv : S → Prop) (ops : List Op)
    (hstep : ∀ s op, inv s → guard s op → ∀ s' r, step s op = .ok (s', r) → inv s') :
    ∀ s s' rs, inv s → Guarded step guard s ops → run step s ops = .ok (s', rs) → inv s' := by
  induction ops with
  | nil =>
      rintro s _ _ hinv _ ⟨⟩
      exact hinv
  | cons op ops ih =>
      intro s s'' rs hinv hguard hrun
      obtain ⟨hnow, hlater⟩ := hguard
      obtain ⟨s', r, rs', hs', hrest, rfl⟩ := run_cons_eq_ok hrun
      rw [hs'] at hlater
      exact ih s' s'' rs' (hstep s op hinv hnow s' r hs') hlater hrest

/-- Two outcomes agree: related states after the same replies, or a failure of a kind
that is specified. -/
inductive Simulates {F Q : Type} (rel : S → M → Prop) (stops : E → Prop) :
    Except E (S × Q) → Except F (M × Q) → Prop where
  | ok {s : S} {m : M} (q : Q) (hrel : rel s m) : Simulates rel stops (.ok (s, q)) (.ok (m, q))
  | error {e : E} (e' : F) (he : stops e) : Simulates rel stops (.error e) (.error e')

/-- **Lockstep simulation** of a specification that may fail itself.  The induction is on
the operations. -/
theorem run_simulates {F : Type} {spec : M → Op → Except F (M × R)} (rel : S → M → Prop)
    (stops : E → Prop) (ops : List Op)
    (hstep : ∀ s m op, rel s m → guard s op → Simulates rel stops (step s op) (spec m op)) :
    ∀ s m, rel s m → Guarded step guard s ops →
      Simulates rel stops (run step s ops) (run spec m ops) := by
  induction ops with
  | nil =>
      intro s m hrel _
      exact .ok [] hrel
  | cons op ops ih =>
      intro s m hrel hguard
      obtain ⟨hnow, hlater⟩ := hguard
      have hfirst := hstep s m op hrel hnow
      rw [run, run]
      revert hfirst hlater
      generalize step s op = x
      generalize spec m op = y
      intro hlater hfirst
      cases hfirst with
      | error e' he => exact .error e' he
      | @ok s' m' r hrel' =>
          have hrest := ih s' m' hrel' hlater
          dsimp only
          revert hrest
          generalize run step s' ops = x
          generalize run spec m' ops = y
          intro hrest
          cases hrest with
          | error e' he => exact .error e' he
          | ok rs hrel'' => exact .ok (r :: rs) hrel''

/-- A run of two lists of operations. -/
theorem run_append {s s' : S} {rs : List R} (ops ops' : List Op)
    (hrun : run step s ops = .ok (s', rs)) :
    run step s (ops ++ ops') = (run step s' ops').map fun result =>
      (result.1, rs ++ result.2) := by
  induction ops generalizing s rs with
  | nil =>
      cases hrun
      rw [List.nil_append]
      cases run step s' ops' <;> rfl
  | cons op ops ih =>
      obtain ⟨next, r, rs', hs, hlast, rfl⟩ := run_cons_eq_ok hrun
      rw [List.cons_append, run, hs]
      dsimp only
      rw [ih hlast]
      cases run step s' ops' <;> rfl

end Refinement

end Run
end BreadLang
