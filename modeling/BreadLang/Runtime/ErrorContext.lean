import BreadLang.Core.Value
import BreadLang.Library.Brackets
import Mathlib.Logic.Function.Basic
import Mathlib.Order.MinMax

/-!
# Error contexts

The stack of `bread_error_context_push` and `bread_error_context_pop`.  It has 32 slots, and a
push that finds none is dropped.  Up to that depth it is the stack of `Brackets`, so the
contexts nest; the pop that belongs to a dropped push removes another context, and from then on
the depth is below what the brackets say.
-/

namespace BreadLang

open Brackets Brackets.StackOp

/-- `BreadErrorContext`; its texts may be null. -/
structure BreadErrorContext where
  currentFile : Option BreadString
  currentLine : ℤ
  currentColumn : ℤ
  currentFunction : Option BreadString
  deriving DecidableEq

/-- `MAX_ERROR_CONTEXT_DEPTH`. -/
def maxErrorContextDepth : ℕ := 32

/-- `g_error_context_stack` and `g_error_context_depth`. -/
structure ErrorContexts where
  slots : Fin maxErrorContextDepth → BreadErrorContext
  depth : ℕ
  depth_le : depth ≤ maxErrorContextDepth

namespace ErrorContexts

variable {s : ErrorContexts} {ctx : BreadErrorContext} {calls : List (StackOp BreadErrorContext)}

/-- `bread_error_context_push`. -/
def push (s : ErrorContexts) (ctx : BreadErrorContext) : ErrorContexts :=
  if h : s.depth < maxErrorContextDepth then
    { slots := Function.update s.slots ⟨s.depth, h⟩ ctx
      depth := s.depth + 1
      depth_le := h }
  else s

/-- `bread_error_context_pop`. -/
def pop (s : ErrorContexts) : ErrorContexts :=
  if 0 < s.depth then
    { slots := s.slots
      depth := s.depth - 1
      depth_le := (Nat.sub_le _ _).trans s.depth_le }
  else s

/-- `bread_error_context_current`: the slot that the pointer is to and what is in it, `none`
for the null pointer. -/
def current (s : ErrorContexts) : Option (Fin maxErrorContextDepth × BreadErrorContext) :=
  if h : 0 < s.depth then
    have hslot : s.depth - 1 < maxErrorContextDepth := by
      have := s.depth_le
      omega
    some (⟨s.depth - 1, hslot⟩, s.slots ⟨s.depth - 1, hslot⟩)
  else none

/-- A sequence of calls. -/
def run : ErrorContexts → List (StackOp BreadErrorContext) → ErrorContexts
  | s, [] => s
  | s, .push ctx :: calls => (s.push ctx).run calls
  | s, .pop :: calls => s.pop.run calls

/-- The contexts in the first slots, the last one first. -/
def contentsUpTo (s : ErrorContexts) : (n : ℕ) → n ≤ maxErrorContextDepth → List BreadErrorContext
  | 0, _ => []
  | n + 1, h => s.slots ⟨n, h⟩ :: s.contentsUpTo n (Nat.le_of_succ_le h)

/-- The stack that the slots hold. -/
def contents (s : ErrorContexts) : List BreadErrorContext :=
  s.contentsUpTo s.depth s.depth_le

theorem run_append {calls' : List (StackOp BreadErrorContext)} :
    s.run (calls ++ calls') = (s.run calls).run calls' := by
  induction calls generalizing s with
  | nil => rfl
  | cons call calls ih => cases call <;> exact ih

/-! ## Up to the limit -/

theorem push_of_lt (h : s.depth < maxErrorContextDepth) :
    s.push ctx = ⟨Function.update s.slots ⟨s.depth, h⟩ ctx, s.depth + 1, h⟩ :=
  dif_pos h

/-- A push at the limit is dropped. -/
theorem push_of_full (h : s.depth = maxErrorContextDepth) : s.push ctx = s :=
  dif_neg (by omega)

theorem depth_push_of_lt (h : s.depth < maxErrorContextDepth) :
    (s.push ctx).depth = s.depth + 1 := by
  rw [push_of_lt h]

@[simp] theorem depth_pop : s.pop.depth = s.depth - 1 := by
  unfold pop
  split
  · rfl
  · omega

@[simp] theorem length_contentsUpTo {n : ℕ} {h : n ≤ maxErrorContextDepth} :
    (s.contentsUpTo n h).length = n := by
  induction n with
  | zero => rfl
  | succ n ih => simp [contentsUpTo, ih]

@[simp] theorem length_contents : s.contents.length = s.depth :=
  length_contentsUpTo

/-- The slots from `n` on do not count. -/
theorem contentsUpTo_congr {t : ErrorContexts} {n : ℕ} {h : n ≤ maxErrorContextDepth}
    (hslots : ∀ i : Fin maxErrorContextDepth, i < n → s.slots i = t.slots i) :
    s.contentsUpTo n h = t.contentsUpTo n h := by
  induction n with
  | zero => rfl
  | succ n ih =>
    rw [contentsUpTo, contentsUpTo, hslots ⟨n, h⟩ (Nat.lt_succ_self n),
      ih fun i hi => hslots i (Nat.lt_succ_of_lt hi)]

/-- A push below the limit is a push on the stack. -/
theorem contents_push (h : s.depth < maxErrorContextDepth) :
    (s.push ctx).contents = ctx :: s.contents := by
  simp only [push_of_lt h, contents, contentsUpTo, Function.update_self]
  congr 1
  apply contentsUpTo_congr
  intro i hi
  exact Function.update_of_ne (by rintro rfl; simp at hi) _ _

/-- A pop is a pop of the stack. -/
theorem contents_pop : s.pop.contents = s.contents.tail := by
  obtain ⟨slots, depth, hdepth⟩ := s
  cases depth with
  | zero => rfl
  | succ n =>
    show contentsUpTo _ n _ = contentsUpTo _ n _
    apply contentsUpTo_congr
    intro i _
    rfl

theorem current_of_depth_zero (h : s.depth = 0) : s.current = none :=
  dif_neg (by omega)

theorem current_of_lt {n : ℕ} (h : s.depth = n + 1) (hn : n < maxErrorContextDepth) :
    s.current = some (⟨n, hn⟩, s.slots ⟨n, hn⟩) := by
  obtain ⟨slots, depth, hdepth⟩ := s
  obtain rfl : depth = n + 1 := h
  rfl

/-- The current context is the top of the stack, in the slot below the depth. -/
theorem current_of_contents {stack : List BreadErrorContext} (h : s.contents = ctx :: stack)
    (hslot : stack.length < maxErrorContextDepth) :
    s.current = some (⟨stack.length, hslot⟩, ctx) := by
  have hdepth : s.depth = stack.length + 1 := by
    rw [← s.length_contents, h, List.length_cons]
  rw [current_of_lt hdepth hslot]
  obtain ⟨slots, depth, hle⟩ := s
  obtain rfl : depth = stack.length + 1 := hdepth
  simp only [contents, contentsUpTo, List.cons.injEq] at h
  simp [h.1]

/-- Which context is current depends on the stack only. -/
theorem current_congr {t : ErrorContexts} (h : s.contents = t.contents) :
    s.current = t.current := by
  cases hs : s.contents with
  | nil =>
    have hzero : s.depth = 0 := by rw [← s.length_contents, hs, List.length_nil]
    have hzero' : t.depth = 0 := by rw [← t.length_contents, ← h, hs, List.length_nil]
    rw [current_of_depth_zero hzero, current_of_depth_zero hzero']
  | cons ctx stack =>
    have hslot : stack.length < maxErrorContextDepth := by
      have hlen := s.length_contents
      have hle := s.depth_le
      rw [hs, List.length_cons] at hlen
      omega
    rw [current_of_contents hs hslot, current_of_contents (h ▸ hs) hslot]

/-- **Within the limit the slots are a stack without one.** -/
theorem contents_run (h : peak s.depth calls ≤ maxErrorContextDepth) :
    (s.run calls).contents = runStack s.contents calls := by
  induction calls generalizing s with
  | nil => rfl
  | cons call calls ih =>
    cases call with
    | push ctx =>
      have hpeak : s.depth + 1 ≤ peak (s.depth + 1) calls := le_peak
      have hlt : s.depth < maxErrorContextDepth := hpeak.trans h
      rw [run, ih (by rw [depth_push_of_lt hlt]; exact h), contents_push hlt, runStack_push]
    | pop =>
      rw [run, ih (by rw [depth_pop]; exact (le_max_right _ _).trans h), contents_pop,
        runStack_pop]

/-! ## Beyond the limit -/

/-- A well-bracketed sequence never adds to the depth. -/
theorem depth_run_le (h : WellBracketed calls) : (s.run calls).depth ≤ s.depth := by
  induction h generalizing s with
  | nil => exact le_rfl
  | @nest ctx inner rest _ _ ihinner ihrest =>
    show ((s.push ctx).run (inner ++ .pop :: rest)).depth ≤ s.depth
    rw [run_append, run]
    have hpush : (s.push ctx).depth ≤ s.depth + 1 := by
      unfold push
      split <;> simp
    have hinner := ihinner (s := s.push ctx)
    have hrest := ihrest (s := ((s.push ctx).run inner).pop)
    rw [depth_pop] at hrest
    omega

/-- Where a push has been dropped, the depth is below what it was before. -/
theorem depth_run_lt (h : WellBracketed calls) (hpos : 0 < s.depth)
    (hpeak : maxErrorContextDepth < peak s.depth calls) : (s.run calls).depth < s.depth := by
  induction h generalizing s with
  | nil => exact absurd s.depth_le (by simpa using hpeak)
  | @nest ctx inner rest hinner hrest ihinner ihrest =>
    show ((s.push ctx).run (inner ++ .pop :: rest)).depth < s.depth
    rw [run_append, run]
    set t := ((s.push ctx).run inner).pop with ht
    have hle : (t.run rest).depth ≤ t.depth := depth_run_le hrest
    have htd : t.depth = ((s.push ctx).run inner).depth - 1 := depth_pop
    have hin : ((s.push ctx).run inner).depth ≤ (s.push ctx).depth := depth_run_le hinner
    rcases Nat.lt_or_ge s.depth maxErrorContextDepth with hlt | hfull
    · rw [depth_push_of_lt hlt] at hin
      rw [hinner.peak_nest, lt_max_iff] at hpeak
      rcases hpeak with hpeak | hpeak
      · -- a push is dropped inside
        have := ihinner (s := s.push ctx) (by rw [depth_push_of_lt hlt]; omega)
          (by rwa [depth_push_of_lt hlt])
        rw [depth_push_of_lt hlt] at this
        omega
      · rcases Nat.lt_or_ge t.depth s.depth with hbelow | hsame
        · omega
        · have heq : t.depth = s.depth := by omega
          have := ihrest (s := t) (by omega) (by rwa [heq])
          omega
    · rw [push_of_full (le_antisymm s.depth_le hfull)] at hin htd
      omega

/-- From the empty stack: the context under which a push has been dropped is gone while its
push is the innermost open one. -/
theorem exists_lost_context (h : WellBracketed calls) (hzero : s.depth = 0)
    (hpeak : maxErrorContextDepth < peak s.depth calls) :
    ∃ before ctx inner rest, calls = before ++ .push ctx :: inner ++ rest ∧ WellBracketed inner ∧
      (s.run before).depth < maxErrorContextDepth ∧
      (s.run (before ++ .push ctx :: inner)).depth = 0 := by
  induction h generalizing s with
  | nil => exact absurd s.depth_le (by simpa using hpeak)
  | @nest ctx inner rest hinner hrest ihinner ihrest =>
    have hlt : s.depth < maxErrorContextDepth := by
      rw [hzero]
      decide
    have hone : (s.push ctx).depth = s.depth + 1 := depth_push_of_lt hlt
    rw [hinner.peak_nest, lt_max_iff] at hpeak
    rcases hpeak with hpeak | hpeak
    · refine ⟨[], ctx, inner, .pop :: rest, rfl, hinner, hlt, ?_⟩
      have hlost := depth_run_lt (s := s.push ctx) hinner (by omega) (by rwa [hone])
      show ((s.push ctx).run inner).depth = 0
      omega
    · set t := ((s.push ctx).run inner).pop with ht
      have hin : ((s.push ctx).run inner).depth ≤ (s.push ctx).depth := depth_run_le hinner
      have htd : t.depth = ((s.push ctx).run inner).depth - 1 := depth_pop
      have htzero : t.depth = 0 := by omega
      have hrun : ∀ calls', s.run (.push ctx :: (inner ++ .pop :: calls')) = t.run calls' := by
        intro calls'
        show (s.push ctx).run (inner ++ .pop :: calls') = t.run calls'
        rw [run_append, run]
      obtain ⟨before, ctx', inner', rest', rfl, hinner', hbefore, hlost⟩ :=
        ihrest htzero (by rwa [htzero, ← hzero])
      refine ⟨.push ctx :: (inner ++ .pop :: before), ctx', inner', rest', by simp, hinner', ?_, ?_⟩
      · rwa [hrun]
      · rw [← hrun] at hlost
        simpa using hlost

/-! ## Nesting -/

/-- The contexts nest in a run: it leaves the current context as it was, and where the
innermost open push was issued below the limit, its context is current, in its slot. -/
structure Nests (s : ErrorContexts) (calls : List (StackOp BreadErrorContext)) : Prop where
  restored : (s.run calls).current = s.current
  innermost : ∀ before ctx inner rest, calls = before ++ .push ctx :: inner ++ rest →
    WellBracketed inner → ∀ hslot : (s.run before).depth < maxErrorContextDepth,
      (s.run (before ++ .push ctx :: inner)).current = some (⟨(s.run before).depth, hslot⟩, ctx)

theorem nests_of_peak_le (h : WellBracketed calls) (hpeak : peak s.depth calls ≤
    maxErrorContextDepth) : s.Nests calls := by
  constructor
  · apply current_congr
    rw [contents_run hpeak, h.runStack_eq]
  · rintro before ctx inner rest rfl hinner hslot
    have hopen : peak s.depth (before ++ .push ctx :: inner) ≤ maxErrorContextDepth :=
      peak_le_append.trans hpeak
    have hbefore : peak s.depth before ≤ maxErrorContextDepth := peak_le_append.trans hopen
    have hcontents : (s.run (before ++ .push ctx :: inner)).contents =
        ctx :: (s.run before).contents := by
      rw [contents_run hopen, contents_run hbefore, hinner.runStack_push_eq]
    rw [current_of_contents hcontents (by rwa [length_contents])]
    simp

theorem not_nests_of_lt_peak (h : WellBracketed calls) (hpeak : maxErrorContextDepth <
    peak s.depth calls) : ¬ s.Nests calls := by
  intro hnests
  rcases Nat.eq_zero_or_pos s.depth with hzero | hpos
  · obtain ⟨before, ctx, inner, rest, hcalls, hinner, hslot, hlost⟩ :=
      exists_lost_context h hzero hpeak
    have hcurrent := hnests.innermost before ctx inner rest hcalls hinner hslot
    rw [current_of_depth_zero hlost] at hcurrent
    exact absurd hcurrent (by simp)
  · -- the pointer is to a lower slot than before, or null
    have hlt := depth_run_lt h hpos hpeak
    have hrestored := hnests.restored
    obtain ⟨n, hn⟩ := Nat.exists_eq_add_one.mpr hpos
    have hle := s.depth_le
    rw [current_of_lt hn (by omega)] at hrestored
    cases hdepth : (s.run calls).depth with
    | zero =>
      rw [current_of_depth_zero hdepth] at hrestored
      exact absurd hrestored (by simp)
    | succ m =>
      rw [current_of_lt hdepth (by omega)] at hrestored
      simp only [Option.some.injEq, Prod.mk.injEq, Fin.mk.injEq] at hrestored
      omega

/-- **Error contexts nest exactly in the runs that stay within the limit of the stack.** -/
theorem nests_iff (s : ErrorContexts) (calls : List (StackOp BreadErrorContext))
    (h : WellBracketed calls) : s.Nests calls ↔ peak s.depth calls ≤ maxErrorContextDepth := by
  constructor
  · intro hnests
    by_contra hpeak
    exact not_nests_of_lt_peak h (Nat.lt_of_not_le hpeak) hnests
  · exact nests_of_peak_le h

/-- The context of a function in a file. -/
def exampleContext : BreadErrorContext :=
  ⟨some "main.bread".toList, 1, 1, some "main".toList⟩

/-- The stack at the start of the program. -/
def initial : ErrorContexts := ⟨fun _ => ⟨none, 0, 0, none⟩, 0, Nat.zero_le _⟩

theorem nests_twice : initial.Nests [.push exampleContext, .push exampleContext, .pop, .pop] := by
  have hinner : WellBracketed [.push exampleContext, .pop] := .nest .nil .nil
  exact (nests_iff initial [.push exampleContext, .push exampleContext, .pop, .pop]
    (.nest hinner .nil)).mpr (by decide)

/-- 33 nested pushes and their pops. -/
def deepCalls : List (StackOp BreadErrorContext) :=
  List.replicate 33 (.push exampleContext) ++ List.replicate 33 .pop

/-- With one push more than the stack has slots, the outermost context is gone before its
pop. -/
theorem deepCalls_not_nests : WellBracketed deepCalls ∧ ¬ initial.Nests deepCalls :=
  ⟨wellBracketed_replicate exampleContext 33,
    not_nests_of_lt_peak (wellBracketed_replicate exampleContext 33) (by decide)⟩

end ErrorContexts

end BreadLang
