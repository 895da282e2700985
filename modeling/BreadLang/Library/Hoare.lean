import BreadLang.Library.Stateful

/-!
# Triples for computations that may fail

`Triple P m Q E` is the partial correctness of a stateful computation with
exceptions: run from a state in which `P` holds, `m` ends in one in which `Q`
holds of its result, or `E` of its exception.  The rules follow the structure of
a computation; `triple_loop` is the one with an invariant.
-/

namespace BreadLang

namespace Stateful

variable {σ ε α β : Type}

/-- A loop with a bound on its turns: each of them goes on with a new value, or ends
with a result.  A loop that uses up its bound raises an exception of its own. -/
def loop (exhausted : ε) (turn : α → Stateful σ ε (α ⊕ β)) : ℕ → α → Stateful σ ε β
  | 0, _ => throw exhausted
  | n + 1, a => do
      match ← turn a with
      | .inl a => loop exhausted turn n a
      | .inr b => return b

/-- A computation that is run in a changed state.  `leave` makes the state at the end
from the one at the start and the one in which the computation has ended. -/
def within (enter : σ → σ) (leave : σ → σ → σ) (m : Stateful σ ε α) : Stateful σ ε α :=
  ExceptT.mk fun s =>
    match m.run.run (enter s) with
    | (r, t) => (r, leave s t)

@[simp] theorem result_within (enter : σ → σ) (leave : σ → σ → σ) (m : Stateful σ ε α) (s : σ) :
    (within enter leave m).result s = m.result (enter s) := rfl

@[simp] theorem final_within (enter : σ → σ) (leave : σ → σ → σ) (m : Stateful σ ε α) (s : σ) :
    (within enter leave m).final s = leave s (m.final (enter s)) := rfl

/-- What holds of an outcome. -/
def Holds (Q : α → σ → Prop) (E : ε → σ → Prop) : Except ε α → σ → Prop
  | .ok a, s => Q a s
  | .error e, s => E e s

theorem Holds.mono {Q Q' : α → σ → Prop} {E E' : ε → σ → Prop} {r : Except ε α} {s : σ}
    (h : Holds Q E r s) (hQ : ∀ a, Q a s → Q' a s) (hE : ∀ e, E e s → E' e s) :
    Holds Q' E' r s := by
  cases r with
  | ok a => exact hQ a h
  | error e => exact hE e h

/-- **Partial correctness** of a computation. -/
def Triple (P : σ → Prop) (m : Stateful σ ε α) (Q : α → σ → Prop) (E : ε → σ → Prop) : Prop :=
  ∀ s, P s → Holds Q E (m.result s) (m.final s)

section Rules

variable {P P' : σ → Prop} {Q Q' : α → σ → Prop} {R : β → σ → Prop} {E E' : ε → σ → Prop}

theorem triple_conseq {m : Stateful σ ε α} (h : Triple P m Q E) (hP : ∀ s, P' s → P s)
    (hQ : ∀ a s, Q a s → Q' a s) (hE : ∀ e s, E e s → E' e s) : Triple P' m Q' E' :=
  fun s hs => (h s (hP s hs)).mono (fun a => hQ a _) fun e => hE e _

theorem triple_pure {a : α} (h : ∀ s, P s → Q a s) :
    Triple P (pure a : Stateful σ ε α) Q E :=
  h

theorem triple_throw {e : ε} (h : ∀ s, P s → E e s) :
    Triple P (throw e : Stateful σ ε α) Q E :=
  h

theorem triple_modifyGet {f : σ → α × σ} (h : ∀ s, P s → Q (f s).1 (f s).2) :
    Triple P (modifyGet f : Stateful σ ε α) Q E :=
  h

theorem triple_modify {f : σ → σ} {Q : Unit → σ → Prop} (h : ∀ s, P s → Q () (f s)) :
    Triple P (modify f : Stateful σ ε Unit) Q E :=
  h

theorem triple_bind {m : Stateful σ ε α} {f : α → Stateful σ ε β} (hm : Triple P m Q E)
    (hf : ∀ a, Triple (Q a) (f a) R E) : Triple P (m >>= f) R E := by
  intro s hs
  have hholds := hm s hs
  rw [result_bind, final_bind]
  cases hr : m.result s with
  | ok a =>
      rw [hr] at hholds
      exact hf a _ hholds
  | error e =>
      rw [hr] at hholds
      exact hholds

theorem triple_get_bind {f : σ → Stateful σ ε β}
    (hf : ∀ t, Triple (fun s => s = t ∧ P s) (f t) R E) :
    Triple P (get >>= f : Stateful σ ε β) R E :=
  fun s hs => hf s s ⟨rfl, hs⟩

theorem triple_attempt {catches : ε → Bool} {m : Stateful σ ε α} (hm : Triple P m Q E) :
    Triple P (attempt catches m)
      (fun o s => o.elim (∃ e, catches e = true ∧ E e s) (Q · s))
      (fun e s => catches e = false ∧ E e s) := by
  intro s hs
  have hholds := hm s hs
  rw [result_attempt, final_attempt]
  cases hr : m.result s with
  | ok a =>
      rw [hr] at hholds
      exact hholds
  | error e =>
      rw [hr] at hholds
      show Holds _ _ (if catches e then .ok none else .error e) _
      split
      · rename_i hcatch
        exact ⟨e, hcatch, hholds⟩
      · rename_i hcatch
        exact ⟨Bool.eq_false_iff.mpr hcatch, hholds⟩

theorem triple_within {enter : σ → σ} {leave : σ → σ → σ} {m : Stateful σ ε α} {J : σ → Prop}
    (hm : Triple J m Q E) (henter : ∀ s, P s → J (enter s))
    (hQ : ∀ s a t, Q a t → Q' a (leave s t)) (hE : ∀ s e t, E e t → E' e (leave s t)) :
    Triple P (within enter leave m) Q' E' := by
  intro s hs
  have hholds := hm (enter s) (henter s hs)
  rw [result_within, final_within]
  cases hr : m.result (enter s) with
  | ok a =>
      rw [hr] at hholds
      exact hQ s a _ hholds
  | error e =>
      rw [hr] at hholds
      exact hE s e _ hholds

/-- **A loop keeps its invariant**, which holds of the value and the state at the
start of every turn. -/
theorem triple_loop {exhausted : ε} {turn : α → Stateful σ ε (α ⊕ β)} {I : α → σ → Prop}
    (hturn : ∀ a, Triple (I a) (turn a) (fun r s => r.elim (I · s) (R · s)) E)
    (hexhausted : ∀ a s, I a s → E exhausted s) :
    ∀ (n : ℕ) (a : α), Triple (I a) (loop exhausted turn n a) R E := by
  intro n
  induction n with
  | zero => exact fun a => triple_throw (hexhausted a)
  | succ n ih =>
      intro a
      refine triple_bind (hturn a) fun r => ?_
      cases r with
      | inl a => exact ih a
      | inr b => exact triple_pure fun s hs => hs

end Rules

end Stateful

end BreadLang
