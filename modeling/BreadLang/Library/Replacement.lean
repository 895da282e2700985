import Mathlib.Data.List.Infix
import Mathlib.Data.List.Pairwise

/-!
# Replacement of sequences by single items

A table lists sequences and the item that stands for each.  `replaceAll` goes through a
list from the left: where a sequence of the table begins, the item of the first such rule
is written and the sequence is skipped; every other item is copied.  `Replaces` says the
same without an order on the table, by the longest sequence that begins at a place.

The result is a normal form when no rule writes an item that occurs in a sequence of the
table: what is written then brings no sequence about that was not there before.
-/

namespace BreadLang

namespace Replacement

variable {α : Type}

/-- A sequence, which is not empty, and the item that is written for it. -/
structure Rule (α : Type) where
  seq : List α
  item : α
  seq_ne_nil : seq ≠ []

variable {rules : List (Rule α)} {r : Rule α} {l l' out s w : List α} {x y : α}

/-- The list is a result of replacing, at each place, the longest sequence that begins
there. -/
inductive Replaces (rules : List (Rule α)) : List α → List α → Prop where
  | nil : Replaces rules [] []
  | rule {r : Rule α} {l out : List α} (hr : r ∈ rules)
      (hlongest : ∀ r' ∈ rules, r'.seq <+: r.seq ++ l → r'.seq.length ≤ r.seq.length)
      (h : Replaces rules l out) : Replaces rules (r.seq ++ l) (r.item :: out)
  | keep {x : α} {l out : List α} (hnone : ∀ r ∈ rules, ¬ r.seq <+: x :: l)
      (h : Replaces rules l out) : Replaces rules (x :: l) (x :: out)

/-- A rule stands before those whose sequences go on from its own. -/
def LongestFirst (rules : List (Rule α)) : Prop :=
  rules.Pairwise fun r r' => ¬ r.seq <+: r'.seq

/-- No item that the table writes occurs in the sequence. -/
def Unwritten (rules : List (Rule α)) (s : List α) : Prop :=
  ∀ r ∈ rules, r.item ∉ s

theorem Unwritten.tail (h : Unwritten rules (x :: w)) : Unwritten rules w :=
  fun r hr hmem => h r hr (List.mem_cons_of_mem x hmem)

variable [DecidableEq α]

/-- The first rule whose sequence begins the list. -/
def firstRule (rules : List (Rule α)) (l : List α) : Option (Rule α) :=
  rules.find? fun r => r.seq.isPrefixOf l

/-- Goes through the list from the left and replaces the sequences of the table. -/
def replaceAll (rules : List (Rule α)) : List α → List α
  | [] => []
  | x :: l =>
      match firstRule rules (x :: l) with
      | some r => r.item :: replaceAll rules (l.drop (r.seq.length - 1))
      | none => x :: replaceAll rules l
termination_by l => l.length
decreasing_by
  · simp only [List.length_drop, List.length_cons]
    omega
  · simp

theorem firstRule_eq_none : firstRule rules l = none ↔ ∀ r ∈ rules, ¬ r.seq <+: l := by
  simp [firstRule, List.find?_eq_none]

@[simp] theorem firstRule_nil : firstRule ([] : List (Rule α)) l = none := rfl

theorem firstRule_cons :
    firstRule (r :: rules) l = if r.seq <+: l then some r else firstRule rules l := by
  by_cases h : r.seq <+: l <;> simp [firstRule, h]

theorem firstRule_append {after : List (Rule α)} :
    firstRule (rules ++ after) l = (firstRule rules l).or (firstRule after l) :=
  List.find?_append

theorem mem_of_firstRule (h : firstRule rules l = some r) : r ∈ rules :=
  List.mem_of_find?_eq_some h

/-- The list is the sequence of the rule that is found and a rest. -/
theorem exists_append_of_firstRule (h : firstRule rules l = some r) : ∃ l', r.seq ++ l' = l :=
  have hfits : r.seq.isPrefixOf l = true :=
    List.find?_some (p := fun r : Rule α => r.seq.isPrefixOf l) h
  List.isPrefixOf_iff_prefix.mp hfits

@[simp] theorem replaceAll_nil : replaceAll rules [] = [] := by
  rw [replaceAll]

theorem replaceAll_cons_none (h : firstRule rules (x :: l) = none) :
    replaceAll rules (x :: l) = x :: replaceAll rules l := by
  rw [replaceAll, h]

/-- At a sequence of the table the item is written and the sequence is skipped. -/
theorem replaceAll_append (h : firstRule rules (r.seq ++ l) = some r) :
    replaceAll rules (r.seq ++ l) = r.item :: replaceAll rules l := by
  obtain ⟨y, s, hs⟩ := List.exists_cons_of_ne_nil r.seq_ne_nil
  rw [hs, List.cons_append] at h ⊢
  rw [replaceAll, h]
  simp [hs]

/-- **An induction over the places where `replaceAll` writes.** -/
theorem replaceAll_induction {motive : List α → List α → Prop} (nil : motive [] [])
    (rule : ∀ (r : Rule α) (l : List α), firstRule rules (r.seq ++ l) = some r →
      motive l (replaceAll rules l) → motive (r.seq ++ l) (r.item :: replaceAll rules l))
    (keep : ∀ (x : α) (l : List α), firstRule rules (x :: l) = none →
      motive l (replaceAll rules l) → motive (x :: l) (x :: replaceAll rules l))
    (l : List α) : motive l (replaceAll rules l) := by
  induction hn : l.length using Nat.strong_induction_on generalizing l with
  | _ n ih =>
    subst hn
    cases l with
    | nil => simpa using nil
    | cons x l =>
      cases hfirst : firstRule rules (x :: l) with
      | none =>
        rw [replaceAll_cons_none hfirst]
        exact keep x l hfirst (ih l.length (by simp) l rfl)
      | some r =>
        obtain ⟨l', hl'⟩ := exists_append_of_firstRule hfirst
        have hlen := congrArg List.length hl'
        have hpos := List.length_pos_of_ne_nil r.seq_ne_nil
        rw [List.length_append] at hlen
        rw [← hl'] at hfirst ⊢
        rw [replaceAll_append hfirst]
        exact rule r l' hfirst (ih l'.length (by omega) l' rfl)

theorem length_replaceAll_le (rules : List (Rule α)) (l : List α) :
    (replaceAll rules l).length ≤ l.length := by
  apply replaceAll_induction (motive := fun l out => out.length ≤ l.length)
  case nil => simp
  case rule =>
    intro r l _ ih
    have hpos := List.length_pos_of_ne_nil r.seq_ne_nil
    simp only [List.length_cons, List.length_append]
    omega
  case keep =>
    intro x l _ ih
    simpa using ih

/-- In a table with the longer sequences first, the first rule that fits is a longest. -/
theorem LongestFirst.length_le (hrules : LongestFirst rules) (h : firstRule rules l = some r)
    {r' : Rule α} (hr' : r' ∈ rules) (hpre : r'.seq <+: l) : r'.seq.length ≤ r.seq.length := by
  obtain ⟨hfits, before, after, rfl, hbefore⟩ := List.find?_eq_some_iff_append.mp h
  rcases List.mem_append.mp hr' with hmem | hmem
  · have hnot := hbefore r' hmem
    rw [List.isPrefixOf_iff_prefix.mpr hpre] at hnot
    exact absurd hnot (by simp)
  · rcases List.mem_cons.mp hmem with rfl | hmem
    · exact le_rfl
    · have hapart := List.rel_of_pairwise_cons (List.pairwise_append.mp hrules).2.1 hmem
      by_contra hlt
      exact hapart
        (List.prefix_of_prefix_length_le (List.isPrefixOf_iff_prefix.mp hfits) hpre (by omega))

/-- **`replaceAll` replaces the longest sequence at each place.** -/
theorem replaces_replaceAll (hrules : LongestFirst rules) (l : List α) :
    Replaces rules l (replaceAll rules l) := by
  apply replaceAll_induction
  case nil => exact .nil
  case rule =>
    intro r l hfirst ih
    exact .rule (mem_of_firstRule hfirst) (fun r' hr' => hrules.length_le hfirst hr') ih
  case keep =>
    intro x l hfirst ih
    exact .keep (firstRule_eq_none.mp hfirst) ih

/-- What the result begins with, when the table writes none of it, was copied. -/
theorem prefix_of_prefix_replaceAll (hw : Unwritten rules w) (h : w <+: replaceAll rules l) :
    w <+: l := by
  induction w generalizing l with
  | nil => exact List.nil_prefix
  | cons y w ih =>
    revert h
    refine replaceAll_induction (motive := fun l out => y :: w <+: out → y :: w <+: l)
      (fun h => h) ?_ ?_ l
    · intro r l hfirst _ h
      obtain ⟨rfl, _⟩ := List.cons_prefix_cons.mp h
      exact absurd List.mem_cons_self (hw r (mem_of_firstRule hfirst))
    · intro x l _ _ h
      obtain ⟨rfl, hrest⟩ := List.cons_prefix_cons.mp h
      exact List.cons_prefix_cons.mpr ⟨rfl, ih hw.tail hrest⟩

/-- What follows a place of the result is the result of what follows a place of the list. -/
theorem suffix_replaceAll (h : s <:+ replaceAll rules l) :
    ∃ l', l' <:+ l ∧ s = replaceAll rules l' := by
  revert h
  refine replaceAll_induction
    (motive := fun l out => s <:+ out → ∃ l', l' <:+ l ∧ s = replaceAll rules l') ?_ ?_ ?_ l
  · intro h
    exact ⟨[], List.suffix_rfl, by simpa using h⟩
  · intro r l hfirst ih h
    rcases List.suffix_cons_iff.mp h with rfl | hrest
    · exact ⟨r.seq ++ l, List.suffix_rfl, (replaceAll_append hfirst).symm⟩
    · obtain ⟨l', hl', hs⟩ := ih hrest
      exact ⟨l', hl'.trans (List.suffix_append r.seq l), hs⟩
  · intro x l hfirst ih h
    rcases List.suffix_cons_iff.mp h with rfl | hrest
    · exact ⟨x :: l, List.suffix_rfl, (replaceAll_cons_none hfirst).symm⟩
    · obtain ⟨l', hl', hs⟩ := ih hrest
      exact ⟨l', hl'.trans (List.suffix_cons x l), hs⟩

/-- A sequence that the table writes nothing of does not begin the result. -/
theorem not_prefix_replaceAll (hr : r ∈ rules) (hw : Unwritten rules r.seq) :
    ¬ r.seq <+: replaceAll rules l := by
  intro h
  have hl := prefix_of_prefix_replaceAll hw h
  cases hfirst : firstRule rules l with
  | none => exact firstRule_eq_none.mp hfirst r hr hl
  | some r' =>
    obtain ⟨l', rfl⟩ := exists_append_of_firstRule hfirst
    rw [replaceAll_append hfirst] at h
    obtain ⟨y, s, hs⟩ := List.exists_cons_of_ne_nil r.seq_ne_nil
    rw [hs] at h
    obtain ⟨rfl, _⟩ := List.cons_prefix_cons.mp h
    exact hw r' (mem_of_firstRule hfirst) (by simp [hs])

/-- **No sequence that the table writes nothing of is left in the result.** -/
theorem not_infix_replaceAll (hr : r ∈ rules) (hw : Unwritten rules r.seq) :
    ¬ r.seq <:+: replaceAll rules l := by
  intro h
  obtain ⟨s, hpre, hsuf⟩ := List.infix_iff_prefix_suffix.mp h
  obtain ⟨l', -, rfl⟩ := suffix_replaceAll hsuf
  exact not_prefix_replaceAll hr hw hpre

/-- A list without sequences of the table is left as it is. -/
theorem replaceAll_eq_self (h : ∀ r ∈ rules, ¬ r.seq <:+: l) : replaceAll rules l = l := by
  induction l with
  | nil => simp
  | cons x l ih =>
    have hfirst : firstRule rules (x :: l) = none :=
      firstRule_eq_none.mpr fun r hr hpre => h r hr hpre.isInfix
    rw [replaceAll_cons_none hfirst,
      ih fun r hr hin => h r hr (hin.trans (List.suffix_cons x l).isInfix)]

end Replacement

end BreadLang
