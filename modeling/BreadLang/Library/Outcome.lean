import Mathlib.Logic.Basic

/-!
# Outcomes up to undefined behaviour

Two ways to compute a result are compared by their outcomes, which are values or
exceptions.  Some exceptions mean that the outcome is undefined: any other
outcome is then as good.  `StandsFor U u v` says that `u` may stand for `v`, and
the rules reduce a sequence of steps to the last one.

`Gives u P` is partial correctness: the value of an outcome, if it is one, satisfies
`P`.
-/

namespace BreadLang

section StandsFor

variable {ε α β γ : Type} {U : ε → Prop}

/-- **An outcome may stand for another** when they are equal, or when the other is
undefined. -/
def StandsFor (U : ε → Prop) (u v : Except ε α) : Prop :=
  (∃ e, v = .error e ∧ U e) ∨ u = v

theorem StandsFor.refl (u : Except ε α) : StandsFor U u u :=
  .inr rfl

@[simp] theorem standsFor_ok_iff {u : Except ε α} {a : α} :
    StandsFor U u (.ok a) ↔ u = .ok a := by
  simp [StandsFor]

theorem standsFor_error_iff {u : Except ε α} {e : ε} :
    StandsFor U u (.error e) ↔ U e ∨ u = .error e := by
  simp [StandsFor]

/-- Once the first steps agree, the sequences agree exactly when the second steps
do, from every result of the first. -/
theorem standsFor_bind_iff {u v : Except ε α} {f g : α → Except ε β} (h : StandsFor U u v) :
    StandsFor U (u >>= f) (v >>= g) ↔ ∀ a, v = .ok a → StandsFor U (f a) (g a) := by
  cases v with
  | error e =>
      refine ⟨fun _ a ha => (nomatch ha), fun _ => ?_⟩
      rcases standsFor_error_iff.mp h with he | rfl
      · exact standsFor_error_iff.mpr (.inl he)
      · exact .refl _
  | ok a =>
      obtain rfl := standsFor_ok_iff.mp h
      constructor
      · intro hfg a' ha'
        cases ha'
        exact hfg
      · intro hfg
        exact hfg a rfl

theorem StandsFor.bind {u v : Except ε α} {f g : α → Except ε β} (h : StandsFor U u v)
    (hfg : ∀ a, StandsFor U (f a) (g a)) : StandsFor U (u >>= f) (v >>= g) :=
  (standsFor_bind_iff h).mpr fun a _ => hfg a

end StandsFor

section Gives

variable {ε α β : Type} {P : α → Prop} {Q : β → Prop}

/-- **Every value** that a computation gives satisfies a predicate. -/
def Gives (u : Except ε α) (P : α → Prop) : Prop :=
  ∀ a, u = .ok a → P a

theorem gives_pure {a : α} (h : P a) : Gives (pure a : Except ε α) P := by
  rintro _ ⟨⟩
  exact h

theorem gives_ok {a : α} (h : P a) : Gives (.ok a : Except ε α) P :=
  gives_pure h

theorem gives_ok_iff {a : α} : Gives (.ok a : Except ε α) P ↔ P a :=
  ⟨fun h => h a rfl, gives_ok⟩

theorem gives_error {e : ε} : Gives (.error e : Except ε α) P :=
  fun _ h => nomatch h

theorem gives_bind {u : Except ε α} {f : α → Except ε β} (hu : Gives u P)
    (hf : ∀ a, P a → Gives (f a) Q) : Gives (u >>= f) Q := by
  cases u with
  | error e => exact gives_error
  | ok a => exact hf a (hu a rfl)

theorem gives_map {u : Except ε α} {f : α → β} (hu : Gives u fun a => Q (f a)) :
    Gives (f <$> u) Q := by
  cases u with
  | error e => exact gives_error
  | ok a => exact gives_ok (hu a rfl)

/-- Nothing is known of the first value. -/
theorem gives_bind_any {u : Except ε α} {f : α → Except ε β} (hf : ∀ a, Gives (f a) Q) :
    Gives (u >>= f) Q :=
  gives_bind (P := fun _ => True) (fun _ _ => trivial) fun a _ => hf a

theorem Gives.mono {u : Except ε α} {P' : α → Prop} (h : Gives u P) (hP : ∀ a, P a → P' a) :
    Gives u P' :=
  fun a ha => hP a (h a ha)

theorem Gives.and {u : Except ε α} {P' : α → Prop} (h : Gives u P) (h' : Gives u P') :
    Gives u fun a => P a ∧ P' a :=
  fun a ha => ⟨h a ha, h' a ha⟩

end Gives

end BreadLang
