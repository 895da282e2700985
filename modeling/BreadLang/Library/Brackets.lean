import Mathlib.Data.Nat.Basic
import Mathlib.Data.List.Basic
import Mathlib.Order.Lattice

/-!
# Bracketed runs of a stack

Every push of a well-bracketed sequence has its pop, and between the two the sequence is
well-bracketed again.  A stack without a limit comes out of it as it went in, and while a push
is the innermost one that has not been popped, what it pushed is on top.  `peak` is the most
that the stack holds.
-/

namespace BreadLang

namespace Brackets

variable {α : Type}

/-- An operation on a stack. -/
inductive StackOp (α : Type) where
  | push (a : α)
  | pop
  deriving DecidableEq

open StackOp

/-- Every push has its pop. -/
inductive WellBracketed : List (StackOp α) → Prop where
  | nil : WellBracketed []
  | nest {a : α} {inner rest : List (StackOp α)} (hinner : WellBracketed inner)
      (hrest : WellBracketed rest) : WellBracketed (push a :: (inner ++ pop :: rest))

/-- The most that a stack holds during a run, from the number it holds at the start. -/
def peak : ℕ → List (StackOp α) → ℕ
  | d, [] => d
  | d, push _ :: ops => peak (d + 1) ops
  | d, pop :: ops => max d (peak (d - 1) ops)

/-- The run of a stack without a limit; its top is the head of the list. -/
def runStack : List α → List (StackOp α) → List α
  | stack, [] => stack
  | stack, push a :: ops => runStack (a :: stack) ops
  | stack, pop :: ops => runStack stack.tail ops

variable {a : α} {d : ℕ} {stack : List α} {ops ops' : List (StackOp α)}

@[simp] theorem peak_nil : peak d ([] : List (StackOp α)) = d := rfl

@[simp] theorem peak_push : peak d (push a :: ops) = peak (d + 1) ops := rfl

@[simp] theorem peak_pop : peak d (pop :: ops) = max d (peak (d - 1) ops) := rfl

@[simp] theorem runStack_nil : runStack stack [] = stack := rfl

@[simp] theorem runStack_push : runStack stack (push a :: ops) = runStack (a :: stack) ops := rfl

@[simp] theorem runStack_pop : runStack stack (pop :: ops) = runStack stack.tail ops := rfl

theorem runStack_append : runStack stack (ops ++ ops') = runStack (runStack stack ops) ops' := by
  induction ops generalizing stack with
  | nil => rfl
  | cons op ops ih => cases op <;> exact ih

theorem le_peak : d ≤ peak d ops := by
  induction ops generalizing d with
  | nil => simp
  | cons op ops ih =>
    cases op with
    | push a => exact (Nat.le_succ d).trans ih
    | pop => exact le_max_left _ _

theorem peak_le_append : peak d ops ≤ peak d (ops ++ ops') := by
  induction ops generalizing d with
  | nil => exact le_peak
  | cons op ops ih =>
    cases op with
    | push a => exact ih
    | pop => exact sup_le_sup_left ih d

/-- **A well-bracketed sequence leaves the stack as it was.** -/
theorem WellBracketed.runStack_eq (h : WellBracketed ops) : runStack stack ops = stack := by
  induction h generalizing stack with
  | nil => rfl
  | nest _ _ ihinner ihrest =>
    show runStack (_ :: stack) (_ ++ pop :: _) = stack
    rw [runStack_append, ihinner, runStack_pop, List.tail_cons, ihrest]

/-- While a push is the innermost one that has not been popped, it is on top. -/
theorem WellBracketed.runStack_push_eq (h : WellBracketed ops') :
    runStack stack (ops ++ push a :: ops') = a :: runStack stack ops := by
  rw [runStack_append, runStack_push, h.runStack_eq]

/-- So many pushes and then as many pops. -/
theorem wellBracketed_replicate (a : α) (n : ℕ) :
    WellBracketed (List.replicate n (push a) ++ List.replicate n pop) := by
  induction n with
  | zero => exact .nil
  | succ n ih =>
    rw [List.replicate_succ, List.replicate_succ', List.cons_append, ← List.append_assoc]
    exact .nest ih .nil

theorem WellBracketed.peak_append (h : WellBracketed ops) :
    peak d (ops ++ ops') = max (peak d ops) (peak d ops') := by
  induction h generalizing d ops' with
  | nil => simpa using le_peak
  | @nest a inner rest _ _ ihinner ihrest =>
    show peak (d + 1) ((inner ++ pop :: rest) ++ ops') =
      max (peak (d + 1) (inner ++ pop :: rest)) (peak d ops')
    rw [List.append_assoc, ihinner, ihinner, List.cons_append, peak_pop, peak_pop,
      Nat.add_sub_cancel, ihrest, max_assoc, max_assoc]

/-- The most that is held in a nested part and behind it. -/
theorem WellBracketed.peak_nest (h : WellBracketed ops) :
    peak d (push a :: (ops ++ pop :: ops')) = max (peak (d + 1) ops) (peak d ops') := by
  rw [peak_push, h.peak_append, peak_pop, Nat.add_sub_cancel, ← max_assoc,
    max_eq_left (le_peak : d + 1 ≤ peak (d + 1) ops)]

end Brackets

end BreadLang
