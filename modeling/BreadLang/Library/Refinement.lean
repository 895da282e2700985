import BreadLang.Library.Hoare

/-!
# Computations that do the same with less

`Refines g m m'` says that `m` returns exactly what `m'` returns, seen through a partial
function `g`, and ends in the same state.  Where `g` is not defined, `m` does not return.  So
`m` may keep less than `m'` of what it has computed, as long as what it keeps is enough for the
rest of the computation.
-/

namespace BreadLang

namespace Stateful

variable {σ ε α β γ δ : Type}

/-- A computation returns `a`, and `t` is the state in which it ends. -/
def EndsIn (m : Stateful σ ε α) (s : σ) (a : α) (t : σ) : Prop :=
  m.result s = .ok a ∧ m.final s = t

theorem EndsIn.unique {m : Stateful σ ε α} {s t t' : σ} {a a' : α} (h : EndsIn m s a t)
    (h' : EndsIn m s a' t') : a = a' ∧ t = t' :=
  ⟨Except.ok.inj (h.1.symm.trans h'.1), h.2.symm.trans h'.2⟩

theorem endsIn_pure {a b : α} {s t : σ} :
    EndsIn (pure a : Stateful σ ε α) s b t ↔ a = b ∧ s = t :=
  and_congr_left' (Except.ok.injEq a b).to_iff

theorem endsIn_bind {m : Stateful σ ε α} {f : α → Stateful σ ε β} {s u : σ} {b : β} :
    EndsIn (m >>= f) s b u ↔ ∃ a t, EndsIn m s a t ∧ EndsIn (f a) t b u := by
  constructor
  · rintro ⟨hresult, hfinal⟩
    obtain ⟨a, ha, hb⟩ := result_bind_eq_ok.mp hresult
    rw [final_bind_of_ok ha] at hfinal
    exact ⟨a, _, ⟨ha, rfl⟩, hb, hfinal⟩
  · rintro ⟨a, t, ⟨ha, rfl⟩, hb, hfinal⟩
    exact ⟨result_bind_eq_ok.mpr ⟨a, ha, hb⟩, (final_bind_of_ok ha).trans hfinal⟩

/-- **`m` returns what `m'` returns**, seen through `g`. -/
def RefinesAt (g : β → Option α) (m : Stateful σ ε α) (m' : Stateful σ ε β) (s : σ) : Prop :=
  ∀ a t, EndsIn m s a t ↔ ∃ b, EndsIn m' s b t ∧ g b = some a

section Rules

variable {g : β → Option α} {h : δ → Option γ} {m : Stateful σ ε α} {m' : Stateful σ ε β}
  {f : α → Stateful σ ε γ} {f' : β → Stateful σ ε δ} {s : σ}

theorem refinesAt_pure {a : α} {b : β} (hab : g b = some a) :
    RefinesAt g (pure a : Stateful σ ε α) (pure b) s := by
  intro a' t
  simp only [endsIn_pure]
  constructor
  · rintro ⟨rfl, rfl⟩
    exact ⟨b, ⟨rfl, rfl⟩, hab⟩
  · rintro ⟨b', ⟨rfl, rfl⟩, hb⟩
    exact ⟨Option.some.inj (hab.symm.trans hb), rfl⟩

/-- A computation that fails, where the other one returns nothing that `g` keeps. -/
theorem refinesAt_fails {e : ε} (hm : m.result s = .error e) (hm' : Returns m' fun b => g b = none) :
    RefinesAt g m m' s := by
  intro a t
  constructor
  · rintro ⟨hresult, -⟩
    cases hm.symm.trans hresult
  · rintro ⟨b, ⟨hresult, -⟩, hb⟩
    cases (hm' s b hresult).symm.trans hb

/-- Two computations with the same beginning. -/
theorem refinesAt_bind_same {m : Stateful σ ε α} {f : α → Stateful σ ε γ} {f' : α → Stateful σ ε δ}
    (hf : ∀ a, m.result s = .ok a → RefinesAt h (f a) (f' a) (m.final s)) :
    RefinesAt h (m >>= f) (m >>= f') s := by
  intro c u
  simp only [endsIn_bind]
  constructor
  · rintro ⟨a, _, ⟨ha, rfl⟩, hc⟩
    obtain ⟨d, hd, hdc⟩ := (hf a ha c u).mp hc
    exact ⟨d, ⟨a, _, ⟨ha, rfl⟩, hd⟩, hdc⟩
  · rintro ⟨d, ⟨a, _, ⟨ha, rfl⟩, hd⟩, hdc⟩
    exact ⟨a, _, ⟨ha, rfl⟩, (hf a ha c u).mpr ⟨d, hd, hdc⟩⟩

theorem refinesAt_bind (hm : RefinesAt g m m' s)
    (hf : ∀ b a, g b = some a → ∀ t, RefinesAt h (f a) (f' b) t)
    (hnone : ∀ b, g b = none → Returns (f' b) fun d => h d = none) :
    RefinesAt h (m >>= f) (m' >>= f') s := by
  intro c u
  simp only [endsIn_bind]
  constructor
  · rintro ⟨a, t, ha, hc⟩
    obtain ⟨b, hb, hba⟩ := (hm a t).mp ha
    obtain ⟨d, hd, hdc⟩ := (hf b a hba t c u).mp hc
    exact ⟨d, ⟨b, t, hb, hd⟩, hdc⟩
  · rintro ⟨d, ⟨b, t, hb, hd⟩, hdc⟩
    cases hg : g b with
    | none => cases (hnone b hg t d hd.1).symm.trans hdc
    | some a => exact ⟨a, t, (hm a t).mpr ⟨b, hb, hg⟩, (hf b a hg t c u).mpr ⟨d, hd, hdc⟩⟩

end Rules

section Turns

variable {turn : α → Stateful σ ε (α ⊕ β)} {exhausted : ε} {n : ℕ} {a a' : α} {b b' : β}
  {s t u : σ}

/-- A turn after which a loop goes on. -/
theorem endsIn_loop_next (h : EndsIn (turn a) s (.inl a') t) :
    EndsIn (loop exhausted turn (n + 1) a) s b u ↔ EndsIn (loop exhausted turn n a') t b u := by
  rw [loop, endsIn_bind]
  constructor
  · rintro ⟨next, t', hnext, hrest⟩
    obtain ⟨rfl, rfl⟩ := h.unique hnext
    exact hrest
  · exact fun hrest => ⟨_, t, h, hrest⟩

/-- The last turn of a loop. -/
theorem endsIn_loop_last (h : EndsIn (turn a) s (.inr b') t) :
    EndsIn (loop exhausted turn (n + 1) a) s b u ↔ b' = b ∧ t = u := by
  rw [loop, endsIn_bind]
  constructor
  · rintro ⟨next, t', hnext, hrest⟩
    obtain ⟨rfl, rfl⟩ := h.unique hnext
    exact endsIn_pure.mp hrest
  · exact fun heq => ⟨_, t, h, endsIn_pure.mpr heq⟩

/-- A failure that no turn has is not one of the loop. -/
theorem result_loop_ne {e : ε} (hexhausted : exhausted ≠ e)
    (hturn : ∀ a s, (turn a).result s ≠ .error e) :
    ∀ n a s, (loop exhausted turn n a).result s ≠ .error e := by
  intro n
  induction n with
  | zero => exact fun _ _ h => hexhausted (Except.error.inj h)
  | succ n ih =>
      intro a s h
      rw [loop, result_bind] at h
      cases hr : (turn a).result s with
      | error e' =>
          rw [hr] at h
          obtain rfl : e' = e := Except.error.inj h
          exact hturn a s hr
      | ok next =>
          rw [hr] at h
          cases next with
          | inl a' => exact ih a' _ h
          | inr b => cases h

end Turns

section Loops

variable {g : β → Option α} {h : δ → Option γ} {turn : α → Stateful σ ε (α ⊕ γ)}
  {turn' : β → Stateful σ ε (β ⊕ δ)} {exhausted : ε}

/-- What a loop returns, where its invariant `I` holds at the start of every turn. -/
theorem returns_loop {I : β → Prop} {P : δ → Prop}
    (hturn : ∀ b, I b → Returns (turn' b) (Sum.elim I P)) :
    ∀ n b, I b → Returns (loop exhausted turn' n b) P := by
  intro n
  induction n with
  | zero => exact fun _ _ => returns_throw
  | succ n ih =>
      intro b hb
      refine returns_bind (hturn b hb) fun r hr => ?_
      cases r with
      | inl b => exact ih b hr
      | inr d => exact returns_pure hr

/-- **A loop refines a loop** whose turns it refines, turn by turn. -/
theorem refinesAt_loop
    (hturn : ∀ b a, g b = some a → ∀ s,
      RefinesAt (Sum.elim (fun b => (g b).map .inl) fun d => (h d).map .inr) (turn a) (turn' b) s)
    (hnone : ∀ b, g b = none →
      Returns (turn' b) (Sum.elim (fun b => g b = none) fun d => h d = none)) :
    ∀ n b a, g b = some a → ∀ s,
      RefinesAt h (loop exhausted turn n a) (loop exhausted turn' n b) s := by
  intro n
  induction n with
  | zero => exact fun b a _ s => refinesAt_fails rfl returns_throw
  | succ n ih =>
      intro b a hab s
      refine refinesAt_bind (hturn b a hab s) (fun r' r hr t => ?_) fun r' hr' => ?_
      · cases r' with
        | inl b' =>
            obtain ⟨a', ha', rfl⟩ := Option.map_eq_some_iff.mp hr
            exact ih b' a' ha' t
        | inr d =>
            obtain ⟨c, hc, rfl⟩ := Option.map_eq_some_iff.mp hr
            exact refinesAt_pure hc
      · cases r' with
        | inl b' => exact returns_loop hnone n b' (Option.map_eq_none_iff.mp hr')
        | inr d => exact returns_pure (Option.map_eq_none_iff.mp hr')

end Loops

end Stateful

end BreadLang
