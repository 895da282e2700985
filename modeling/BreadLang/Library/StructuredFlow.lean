import Mathlib.Computability.Language
import Mathlib.Tactic.Abel

/-!
# Structured control flow

What a piece of a program does until control leaves it, for each of the ways in which that
can be: behind it, out of the loop around it, to the next turn of that loop, and out of the
function.  What is done is an element of a Kleene algebra, so that pieces are put together by
sums and products, and a loop by a star.

`Ways.meets` joins a piece to what is done after it.  A loop is known by an equation in one
unknown, of which it is the only solution when no turn is empty (`Ways.eq_meets_loop`, from
Arden's lemma).
-/

namespace BreadLang

open scoped Computability

/-- **The ways out of a piece of a program**, and what is done on them. -/
structure Ways (K : Type*) where
  normal : K
  broken : K
  continued : K
  returned : K

namespace Ways

section Pieces

variable {K : Type*} [Semiring K]

/-- Something is done, and control goes on behind it. -/
def does (a : K) : Ways K :=
  ⟨a, 0, 0, 0⟩

/-- Something is done, and the loop is left. -/
def breaks (a : K) : Ways K :=
  ⟨0, a, 0, 0⟩

/-- Something is done, and the next turn of the loop begins. -/
def continues (a : K) : Ways K :=
  ⟨0, 0, a, 0⟩

/-- Something is done, and the function returns. -/
def returns (a : K) : Ways K :=
  ⟨0, 0, 0, a⟩

/-- Something is tested: control goes on, or the loop is left. -/
def guard (a : K) : Ways K :=
  ⟨a, a, 0, 0⟩

/-- One piece after another. -/
def seq (f g : Ways K) : Ways K where
  normal := f.normal * g.normal
  broken := f.broken + f.normal * g.broken
  continued := f.continued + f.normal * g.continued
  returned := f.returned + f.normal * g.returned

/-- One piece or another. -/
def choice (f g : Ways K) : Ways K where
  normal := f.normal + g.normal
  broken := f.broken + g.broken
  continued := f.continued + g.continued
  returned := f.returned + g.returned

/-- What leaves a loop goes on behind the piece. -/
def catchBreak (f : Ways K) : Ways K :=
  ⟨f.normal + f.broken, 0, f.continued, f.returned⟩

/-- A turn of a loop that is not the last one, and the step to the next one. -/
def again (turn : Ways K) (step : K) : K :=
  (turn.normal + turn.continued) * step

/-- **What is done altogether**, when it is known what is done after each way out. -/
def meets (f after : Ways K) : K :=
  f.normal * after.normal + f.broken * after.broken + f.continued * after.continued +
    f.returned * after.returned

variable (a : K) (f g after : Ways K)

@[simp] theorem meets_does : (does a).meets after = a * after.normal := by
  simp [meets, does]

@[simp] theorem meets_breaks : (breaks a).meets after = a * after.broken := by
  simp [meets, breaks]

@[simp] theorem meets_continues : (continues a).meets after = a * after.continued := by
  simp [meets, continues]

@[simp] theorem meets_returns : (returns a).meets after = a * after.returned := by
  simp [meets, returns]

@[simp] theorem meets_guard : (guard a).meets after = a * (after.normal + after.broken) := by
  simp [meets, guard, mul_add]

/-- What is done after the first piece is the second one. -/
@[simp] theorem meets_seq :
    (f.seq g).meets after = f.meets { after with normal := g.meets after } := by
  simp only [meets, seq, mul_add, add_mul, mul_assoc]
  abel

@[simp] theorem meets_choice : (f.choice g).meets after = f.meets after + g.meets after := by
  simp only [meets, choice, add_mul]
  abel

@[simp] theorem meets_catchBreak :
    f.catchBreak.meets after = f.meets { after with broken := after.normal } := by
  simp only [meets, catchBreak, add_mul, zero_mul, add_zero]

end Pieces

/-! ### Loops -/

section Loops

variable {α : Type*}

/-- Turn after turn, with a step between them, until one leaves the loop. -/
def loop (turn : Ways (Language α)) (step : Language α) : Ways (Language α) where
  normal := (turn.again step)∗ * turn.broken
  broken := 0
  continued := 0
  returned := (turn.again step)∗ * turn.returned

/-- **A loop is the only solution of its equation**, when no turn is empty: what is done from
its head on is a turn, and then what is done from the head on or behind the loop. -/
theorem eq_meets_loop {turn after : Ways (Language α)} {step head : Language α}
    (hturn : [] ∉ turn.again step)
    (h : head = turn.meets ⟨step * head, after.normal, step * head, after.returned⟩) :
    head = (turn.loop step).meets after := by
  have hequation : head = turn.again step * head +
      (turn.broken * after.normal + turn.returned * after.returned) := by
    refine h.trans ?_
    simp only [meets, again, add_mul, mul_assoc]
    abel
  calc head = (turn.again step)∗ *
        (turn.broken * after.normal + turn.returned * after.returned) :=
        (Language.self_eq_mul_add_iff hturn).mp hequation
    _ = (turn.loop step).meets after := by
        simp only [meets, loop, mul_add, mul_assoc, zero_mul, add_zero]

/-- No turn is empty that begins with a test. -/
theorem nil_notMem_again_guard (x : α) (xs : List α) (turn : Ways (Language α))
    (step : Language α) : [] ∉ ((guard {x :: xs}).seq turn).again step := by
  have hagain : ((guard {x :: xs}).seq turn).again step =
      {x :: xs} * ((turn.normal + turn.continued) * step) := by
    simp only [again, seq, guard, zero_add, mul_add, add_mul, mul_assoc]
  rw [hagain]
  intro hnil
  obtain ⟨word, hword, rest, -, happend⟩ := Language.mem_mul.mp hnil
  obtain rfl := Set.mem_singleton_iff.mp hword
  exact absurd happend (List.cons_ne_nil _ _)

end Loops

end Ways

end BreadLang
