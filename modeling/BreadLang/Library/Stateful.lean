import Mathlib.Control.Basic
import Mathlib.Data.List.Basic

/-!
# Computations that keep their state when they fail

`Stateful σ ε α` is a function of a state that returns a result or an exception
and, in either case, a new state.  A C function that appends to a table and may
then return an error code is of this form: what it has appended stays.

The notion of this module is `Keeps I m`: run from a state in which `I` holds,
`m` ends in one in which `I` holds, whether or not it fails.  The rules follow
the structure of a computation, so an invariant of a large one is reduced to its
primitive steps.  A frame condition is an invariant too: that the component
`f s` does not change is `Keeps (fun s => f s = x) m` for every `x`.
-/

namespace BreadLang

/-- A computation with a state of type `σ` that may raise an exception and keeps
its state when it does. -/
abbrev Stateful (σ ε : Type) := ExceptT ε (StateM σ)

namespace Stateful

variable {σ ε α β : Type}

/-- The result of a computation started in a state. -/
def result (m : Stateful σ ε α) (s : σ) : Except ε α :=
  (m.run.run s).1

/-- The state in which a computation ends. -/
def final (m : Stateful σ ε α) (s : σ) : σ :=
  (m.run.run s).2

/-- A result that does not depend on the state. -/
def ofExcept (r : Except ε α) : Stateful σ ε α :=
  ExceptT.mk (pure r)

/-- A result that is read off the state. -/
def reads (f : σ → Except ε α) : Stateful σ ε α := do
  ofExcept (f (← get))

@[simp] theorem result_ofExcept (r : Except ε α) (s : σ) :
    (ofExcept r : Stateful σ ε α).result s = r := rfl

@[simp] theorem final_ofExcept (r : Except ε α) (s : σ) :
    (ofExcept r : Stateful σ ε α).final s = s := rfl

@[simp] theorem result_pure (a : α) (s : σ) :
    (pure a : Stateful σ ε α).result s = .ok a := rfl

@[simp] theorem final_pure (a : α) (s : σ) :
    (pure a : Stateful σ ε α).final s = s := rfl

@[simp] theorem result_reads (f : σ → Except ε α) (s : σ) :
    (reads f).result s = f s := rfl

@[simp] theorem final_reads (f : σ → Except ε α) (s : σ) :
    (reads f).final s = s := rfl

theorem final_bind (m : Stateful σ ε α) (f : α → Stateful σ ε β) (s : σ) :
    (m >>= f).final s =
      match m.result s with
      | .ok a => (f a).final (m.final s)
      | .error _ => m.final s := by
  show ((m >>= f).run.run s).2 = _
  unfold result final
  simp only [ExceptT.run_bind, StateT.run_bind]
  rcases m.run.run s with ⟨r, t⟩
  cases r with
  | ok a => rfl
  | error e => rfl

theorem result_bind (m : Stateful σ ε α) (f : α → Stateful σ ε β) (s : σ) :
    (m >>= f).result s =
      match m.result s with
      | .ok a => (f a).result (m.final s)
      | .error e => .error e := by
  show ((m >>= f).run.run s).1 = _
  unfold result final
  simp only [ExceptT.run_bind, StateT.run_bind]
  rcases m.run.run s with ⟨r, t⟩
  cases r with
  | ok a => rfl
  | error e => rfl

theorem result_get_bind (f : σ → Stateful σ ε β) (s : σ) :
    (get >>= f : Stateful σ ε β).result s = (f s).result s := rfl

theorem final_get_bind (f : σ → Stateful σ ε β) (s : σ) :
    (get >>= f : Stateful σ ε β).final s = (f s).final s := rfl

theorem result_bind_eq_ok {m : Stateful σ ε α} {f : α → Stateful σ ε β} {s : σ} {b : β} :
    (m >>= f).result s = .ok b ↔
      ∃ a, m.result s = .ok a ∧ (f a).result (m.final s) = .ok b := by
  rw [result_bind]
  cases m.result s with
  | ok a => simp
  | error e => simp

theorem final_bind_of_ok {m : Stateful σ ε α} {f : α → Stateful σ ε β} {s : σ} {a : α}
    (h : m.result s = .ok a) : (m >>= f).final s = (f a).final (m.final s) := by
  rw [final_bind, h]

theorem final_bind_of_error {m : Stateful σ ε α} {f : α → Stateful σ ε β} {s : σ} {e : ε}
    (h : m.result s = .error e) : (m >>= f).final s = m.final s := by
  rw [final_bind, h]

/-- A loop that succeeds has succeeded on every element. -/
theorem result_forM_eq_ok {f : α → Stateful σ ε PUnit} {as : List α} {s : σ}
    (h : (as.forM f).result s = .ok ⟨⟩) : ∀ a ∈ as, ∃ t, (f a).result t = .ok ⟨⟩ := by
  induction as generalizing s with
  | nil => exact fun a ha => absurd ha List.not_mem_nil
  | cons a as ih =>
      obtain ⟨⟨⟩, hfirst, hrest⟩ := result_bind_eq_ok.mp h
      exact List.forall_mem_cons.mpr ⟨⟨s, hfirst⟩, ih hrest⟩

theorem final_bind_pure (m : Stateful σ ε α) (f : α → β) (s : σ) :
    (m >>= fun a => pure (f a)).final s = m.final s := by
  rw [final_bind]
  cases m.result s with
  | ok a => rfl
  | error e => rfl

/-- A computation whose exceptions of one kind are turned into a missing
result. -/
def attempt (catches : ε → Bool) (m : Stateful σ ε α) : Stateful σ ε (Option α) :=
  ExceptT.mk fun s =>
    match m.run.run s with
    | (.ok a, t) => (.ok (some a), t)
    | (.error e, t) => (if catches e then .ok none else .error e, t)

@[simp] theorem final_attempt (catches : ε → Bool) (m : Stateful σ ε α) (s : σ) :
    (attempt catches m).final s = m.final s := by
  show ((attempt catches m).run.run s).2 = (m.run.run s).2
  unfold attempt
  simp only [ExceptT.run_mk, StateT.run]
  split <;> rename_i h <;> rw [h]

theorem result_attempt (catches : ε → Bool) (m : Stateful σ ε α) (s : σ) :
    (attempt catches m).result s =
      match m.result s with
      | .ok a => .ok (some a)
      | .error e => if catches e then .ok none else .error e := by
  show ((attempt catches m).run.run s).1 = match (m.run.run s).1 with
    | .ok a => .ok (some a)
    | .error e => if catches e then .ok none else .error e
  unfold attempt
  simp only [ExceptT.run_mk, StateT.run]
  split <;> rename_i h <;> rw [h]

/-! ### Results -/

/-- **What a computation returns**, in whatever state it starts, if it returns. -/
def Returns (m : Stateful σ ε α) (P : α → Prop) : Prop :=
  ∀ s a, m.result s = .ok a → P a

section Returns

variable {P : α → Prop} {Q : β → Prop} {m : Stateful σ ε α} {f : α → Stateful σ ε β}

theorem returns_pure {a : α} (h : P a) : Returns (pure a : Stateful σ ε α) P := by
  intro s b hb
  cases hb
  exact h

theorem returns_throw {e : ε} : Returns (throw e : Stateful σ ε α) P := by
  intro s a h
  cases h

theorem returns_bind (hm : Returns m P) (hf : ∀ a, P a → Returns (f a) Q) :
    Returns (m >>= f) Q := by
  intro s b h
  obtain ⟨a, ha, hb⟩ := result_bind_eq_ok.mp h
  exact hf a (hm s a ha) _ b hb

theorem returns_bind_any (hf : ∀ a, Returns (f a) Q) : Returns (m >>= f) Q :=
  returns_bind (P := fun _ => True) (fun _ _ _ => trivial) fun a _ => hf a

theorem returns_mapM {f : α → Stateful σ ε β} (hf : ∀ a, Returns (f a) Q) (as : List α) :
    Returns (as.mapM f) fun bs => ∀ b ∈ bs, Q b := by
  induction as with
  | nil => exact returns_pure fun b hb => absurd hb List.not_mem_nil
  | cons a as ih =>
      rw [List.mapM_cons]
      refine returns_bind (hf a) fun b hb => returns_bind ih fun bs hbs => ?_
      exact returns_pure (List.forall_mem_cons.mpr ⟨hb, hbs⟩)

end Returns

/-! ### Invariants -/

/-- **A computation keeps an invariant** when it holds in the state in which it
ends, whatever its result, provided it holds in the one in which it starts. -/
def Keeps (I : σ → Prop) (m : Stateful σ ε α) : Prop :=
  ∀ s, I s → I (m.final s)

section Keeps

variable {I : σ → Prop}

theorem keeps_pure (a : α) : Keeps I (pure a : Stateful σ ε α) :=
  fun _ h => h

theorem keeps_reads (f : σ → Except ε α) : Keeps I (reads f) :=
  fun _ h => h

theorem keeps_throw (e : ε) : Keeps I (throw e : Stateful σ ε α) :=
  fun _ h => h

theorem keeps_modify {f : σ → σ} (h : ∀ s, I s → I (f s)) :
    Keeps I (modify f : Stateful σ ε Unit) :=
  h

theorem keeps_modifyGet {f : σ → α × σ} (h : ∀ s, I s → I (f s).2) :
    Keeps I (modifyGet f : Stateful σ ε α) :=
  h

theorem keeps_bind {m : Stateful σ ε α} {f : α → Stateful σ ε β} (hm : Keeps I m)
    (hf : ∀ a, Keeps I (f a)) : Keeps I (m >>= f) := by
  intro s hs
  rw [final_bind]
  cases m.result s with
  | ok a => exact hf a _ (hm s hs)
  | error e => exact hm s hs

/-- Reading the state: what follows is run in the state that was read. -/
theorem keeps_get_bind {f : σ → Stateful σ ε β} (hf : ∀ s, I s → I ((f s).final s)) :
    Keeps I (get >>= f : Stateful σ ε β) :=
  hf

theorem keeps_map {f : α → β} {m : Stateful σ ε α} (hm : Keeps I m) :
    Keeps I (f <$> m) := by
  rw [map_eq_pure_bind]
  exact keeps_bind hm fun a => keeps_pure _

theorem keeps_attempt {catches : ε → Bool} {m : Stateful σ ε α} (hm : Keeps I m) :
    Keeps I (attempt catches m) := by
  intro s hs
  rw [final_attempt]
  exact hm s hs

theorem keeps_mapM_of_mem {f : α → Stateful σ ε β} {as : List α} (hf : ∀ a ∈ as, Keeps I (f a)) :
    Keeps I (as.mapM f) := by
  induction as with
  | nil => exact keeps_pure _
  | cons a as ih =>
      obtain ⟨hfirst, hrest⟩ := List.forall_mem_cons.mp hf
      rw [List.mapM_cons]
      exact keeps_bind hfirst fun b => keeps_bind (ih hrest) fun bs => keeps_pure _

theorem keeps_mapM {f : α → Stateful σ ε β} (hf : ∀ a, Keeps I (f a)) (as : List α) :
    Keeps I (as.mapM f) :=
  keeps_mapM_of_mem fun a _ => hf a

theorem keeps_forM {f : α → Stateful σ ε PUnit} (hf : ∀ a, Keeps I (f a)) (as : List α) :
    Keeps I (as.forM f) := by
  induction as with
  | nil => exact keeps_pure _
  | cons a as ih => exact keeps_bind (hf a) fun _ => ih

end Keeps

end Stateful

end BreadLang
