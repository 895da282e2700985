import Mathlib.Algebra.Order.Ring.Int
import Mathlib.Data.List.Basic
import Mathlib.Tactic.Ring

/-!
# While loops and arithmetic progressions

`Loop.run` executes `while (test s) s = body s` for a bounded number of tests, so that a
loop that does not end is one that needs more of them than any bound.  `Loop.Returns`
hides the bound, and `returns_iff` unfolds one turn.

`IsProgression start stop step xs` is what a counted loop enumerates: the terms
`start, start + step, ...` that lie before `stop` in the direction of `step`.
-/

namespace BreadLang
namespace Loop

variable {S E : Type}

/-- The loop with at most so many tests; `none` when they do not suffice. -/
def run (test : S → Bool) (body : S → Except E S) : ℕ → S → Option (Except E S)
  | 0, _ => none
  | n + 1, s =>
      if test s then
        match body s with
        | .error e => some (.error e)
        | .ok s' => run test body n s'
      else some (.ok s)

/-- The loop ends in a state. -/
def Returns (test : S → Bool) (body : S → Except E S) (s s' : S) : Prop :=
  ∃ fuel, run test body fuel s = some (.ok s')

variable {test : S → Bool} {body : S → Except E S} {s s' t : S}

theorem returns_of_not_test (h : test s = false) : Returns test body s s :=
  ⟨1, by simp [run, h]⟩

theorem returns_of_body (h : test s) (hbody : body s = .ok t)
    (hrest : Returns test body t s') : Returns test body s s' := by
  obtain ⟨fuel, hrun⟩ := hrest
  exact ⟨fuel + 1, by simp [run, h, hbody, hrun]⟩

/-- **One turn of a loop.** -/
theorem returns_iff :
    Returns test body s s' ↔
      (test s = false ∧ s' = s) ∨
        (test s ∧ ∃ t, body s = .ok t ∧ Returns test body t s') := by
  constructor
  · rintro ⟨fuel, hrun⟩
    cases fuel with
    | zero => cases hrun
    | succ fuel =>
        by_cases htest : test s
        · rw [run, if_pos htest] at hrun
          split at hrun
          · cases hrun
          · rename_i t hbody
            exact .inr ⟨htest, t, hbody, fuel, hrun⟩
        · rw [run, if_neg htest] at hrun
          cases hrun
          exact .inl ⟨Bool.not_eq_true _ ▸ htest, rfl⟩
  · rintro (⟨htest, rfl⟩ | ⟨htest, t, hbody, hrest⟩)
    · exact returns_of_not_test htest
    · exact returns_of_body htest hbody hrest

/-- **An invariant** of the body holds where the loop ends. -/
theorem Returns.invariant {I : S → Prop}
    (hbody : ∀ s t, I s → test s → body s = .ok t → I t)
    (h : Returns test body s s') (hs : I s) : I s' := by
  obtain ⟨fuel, hrun⟩ := h
  induction fuel generalizing s with
  | zero => cases hrun
  | succ fuel ih =>
      rcases returns_iff.mp ⟨fuel + 1, hrun⟩ with ⟨_, rfl⟩ | ⟨htest, t, ht, _⟩
      · exact hs
      · rw [run, if_pos htest, ht] at hrun
        exact ih (hbody s t hs htest ht) hrun

end Loop

/-! ### Arithmetic progressions -/

/-- `x` lies before `stop` in the direction of `step`. -/
def Precedes (step x stop : ℤ) : Prop :=
  if 0 < step then x < stop else stop < x

instance (step x stop : ℤ) : Decidable (Precedes step x stop) := by
  unfold Precedes
  infer_instance

/-- The terms from `start` on, `step` apart, that lie before `stop`. -/
structure IsProgression (start stop step : ℤ) (xs : List ℤ) : Prop where
  precedes_iff : ∀ k : ℕ, Precedes step (start + k * step) stop ↔ k < xs.length
  get_eq : ∀ k (h : k < xs.length), xs[k] = start + k * step

/-- How many terms there are. -/
def progressionLength (start stop step : ℤ) : ℕ :=
  if 0 < step then ((stop - start + step - 1) / step).toNat
  else ((start - stop - step - 1) / -step).toNat

theorem lt_toNat_div_iff {gap step : ℤ} (hstep : 0 < step) (k : ℕ) :
    k < ((gap + step - 1) / step).toNat ↔ (k : ℤ) * step < gap := by
  have hceil : ((k : ℤ) + 1) * step = k * step + step := by ring
  rw [Int.lt_toNat, ← Int.add_one_le_iff, Int.le_ediv_iff_mul_le hstep, hceil]
  omega

theorem precedes_iff_lt_progressionLength {start stop step : ℤ} (hstep : step ≠ 0) (k : ℕ) :
    Precedes step (start + k * step) stop ↔ k < progressionLength start stop step := by
  rcases lt_or_gt_of_ne hstep with hneg | hpos
  · have hmul : (k : ℤ) * -step = -(k * step) := by ring
    have hgap : start - stop - step - 1 = start - stop + -step - 1 := by ring
    rw [Precedes, if_neg (by omega), progressionLength, if_neg (by omega), hgap,
      lt_toNat_div_iff (by omega), hmul]
    omega
  · rw [Precedes, if_pos hpos, progressionLength, if_pos hpos, lt_toNat_div_iff hpos]
    omega

namespace IsProgression

variable {start stop step : ℤ} {xs : List ℤ}

theorem length_eq (h : IsProgression start stop step xs) (hstep : step ≠ 0) :
    xs.length = progressionLength start stop step := by
  have hiff : ∀ k, k < xs.length ↔ k < progressionLength start stop step := fun k =>
    (h.precedes_iff k).symm.trans (precedes_iff_lt_progressionLength hstep k)
  have hle := (hiff (progressionLength start stop step)).mp
  have hge := (hiff xs.length).mpr
  omega

/-- There is one, for a step other than zero. -/
theorem of_step_ne_zero (hstep : step ≠ 0) :
    IsProgression start stop step
      ((List.range (progressionLength start stop step)).map fun k : ℕ => start + (k : ℤ) * step) where
  precedes_iff k := by
    rw [List.length_map, List.length_range]
    exact precedes_iff_lt_progressionLength hstep k
  get_eq k h := by simp

/-- The first term, and the progression from the second one on. -/
theorem of_cons {x : ℤ} (h : IsProgression start stop step (x :: xs)) :
    x = start ∧ Precedes step start stop ∧ IsProgression (start + step) stop step xs := by
  have hshift (k : ℕ) : start + step + k * step = start + (k + 1 : ℕ) * step := by
    push_cast
    ring
  refine ⟨?_, ?_, ⟨fun k => ?_, fun k hk => ?_⟩⟩
  · have hfirst : x = start + (0 : ℕ) * step := h.get_eq 0 (Nat.succ_pos _)
    simpa using hfirst
  · simpa using (h.precedes_iff 0).mpr (by simp)
  · rw [hshift, h.precedes_iff, List.length_cons]
    omega
  · rw [hshift, ← h.get_eq (k + 1) (by simpa using hk)]
    rfl

end IsProgression

end BreadLang
