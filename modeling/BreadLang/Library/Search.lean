import Mathlib.Data.Set.Insert
import Mathlib.Logic.Relation

/-!
# Search of a graph

A search has seen some vertices and has others pending.  What it still gets to is what
can be reached from the pending vertices by paths of vertices that have not been seen.
`remaining_visit` is the step: when a vertex is visited, nothing else is lost if its
successors become pending.  `Remaining.of_kept` says which of the pending vertices can be
left out: those that can be reached from the others.
-/

namespace BreadLang

namespace Search

open Relation

variable {α : Type} {next : α → α → Prop} {seen pending kept : Set α} {a x : α}

/-- A step to a vertex that has not been seen. -/
def UnseenStep (next : α → α → Prop) (seen : Set α) (a b : α) : Prop :=
  next a b ∧ b ∉ seen

/-- What a search with these vertices seen and these pending still gets to. -/
def Remaining (next : α → α → Prop) (seen pending : Set α) (x : α) : Prop :=
  ∃ a ∈ pending, a ∉ seen ∧ ReflTransGen (UnseenStep next seen) a x

theorem Remaining.of_mem (hx : x ∈ pending) (hseen : x ∉ seen) : Remaining next seen pending x :=
  ⟨x, hx, hseen, .refl⟩

theorem Remaining.mono (hsub : pending ⊆ kept) (h : Remaining next seen pending x) :
    Remaining next seen kept x :=
  let ⟨a, ha, hpath⟩ := h
  ⟨a, hsub ha, hpath⟩

theorem Remaining.step (h : Remaining next seen pending a) (hnext : next a x) (hseen : x ∉ seen) :
    Remaining next seen pending x :=
  let ⟨s, hs, hunseen, hpath⟩ := h
  ⟨s, hs, hunseen, hpath.tail ⟨hnext, hseen⟩⟩

/-- What can be reached from what remains remains. -/
theorem Remaining.of_kept (hkept : ∀ b ∈ pending, b ∉ seen → Remaining next seen kept b)
    (h : Remaining next seen pending x) : Remaining next seen kept x := by
  obtain ⟨s, hs, hunseen, hpath⟩ := h
  induction hpath with
  | refl => exact hkept s hs hunseen
  | tail _ hstep ih => exact ih.step hstep.1 hstep.2

/-- With less seen, more remains. -/
theorem Remaining.of_insert (h : Remaining next (insert a seen) pending x) :
    Remaining next seen pending x := by
  obtain ⟨s, hs, hunseen, hpath⟩ := h
  refine ⟨s, hs, fun hmem => hunseen (.inr hmem), ReflTransGen.mono ?_ _ _ hpath⟩
  exact fun b c hstep => ⟨hstep.1, fun hmem => hstep.2 (.inr hmem)⟩

@[simp] theorem not_remaining_empty : ¬ Remaining next seen ∅ x :=
  fun ⟨_, ha, _⟩ => ha

/-- A pending vertex that has been seen is passed over. -/
theorem remaining_skip (ha : a ∈ seen) :
    Remaining next seen (insert a pending) x ↔ Remaining next seen pending x := by
  refine ⟨Remaining.of_kept ?_, Remaining.mono (Set.subset_insert a pending)⟩
  rintro b (rfl | hb) hunseen
  · exact absurd ha hunseen
  · exact .of_mem hb hunseen

/-- **A vertex is visited**, and its successors become pending. -/
theorem remaining_visit (ha : a ∉ seen) : Remaining next seen (insert a pending) x ↔
    x = a ∨ Remaining next (insert a seen) ({b | next a b} ∪ pending) x := by
  constructor
  · rintro ⟨s, hs, hunseen, hpath⟩
    -- the induction is on the path: it is cut at its last visit of the vertex
    induction hpath with
    | refl =>
        by_cases hsa : s = a
        · exact .inl hsa
        · refine .inr (.of_mem (.inr (hs.resolve_left hsa)) ?_)
          rintro (h | h)
          · exact hsa h
          · exact hunseen h
    | @tail y z _ hstep ih =>
        by_cases hza : z = a
        · exact .inl hza
        · have hz : z ∉ insert a seen := by
            rintro (h | h)
            · exact hza h
            · exact hstep.2 h
          rcases ih with rfl | hy
          · exact .inr (.of_mem (.inl hstep.1) hz)
          · exact .inr (hy.step hstep.1 hz)
  · have hroot : Remaining next seen (insert a pending) a := .of_mem (.inl rfl) ha
    rintro (rfl | hrest)
    · exact hroot
    · refine hrest.of_insert.of_kept ?_
      rintro b (hb | hb) hunseen
      · exact hroot.step hb hunseen
      · exact .of_mem (.inr hb) hunseen

/-- At the start, everything that can be reached remains. -/
theorem remaining_start : Remaining next ∅ {a} x ↔ ReflTransGen next a x := by
  constructor
  · rintro ⟨s, rfl, -, hpath⟩
    exact ReflTransGen.mono (fun _ _ hstep => hstep.1) _ _ hpath
  · intro hpath
    have hunseen (b : α) : b ∉ (∅ : Set α) := Set.notMem_empty b
    exact ⟨a, rfl, hunseen a,
      ReflTransGen.mono (fun _ b hstep => ⟨hstep, hunseen b⟩) _ _ hpath⟩

end Search

end BreadLang
