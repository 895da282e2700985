import Mathlib.Algebra.GroupWithZero.Nat
import Mathlib.Logic.Relation

/-!
# Searching trees

A tree is a type of nodes with a list of children for each node; a rank that falls from a node to
its children makes every descent end.  A traversal that looks at a node and goes on to some of
its children finds what it looks for exactly where a descent through these children reaches it.
-/

namespace BreadLang

namespace Tree

variable {α : Type} {next : α → List α}

/-- A descent from a node leads to another one, through the given children. -/
def Reaches (next : α → List α) : α → α → Prop :=
  Relation.ReflTransGen fun a b => b ∈ next a

theorem Reaches.head_iff {a b : α} :
    Reaches next a b ↔ a = b ∨ ∃ c ∈ next a, Reaches next c b := by
  rw [Reaches, Relation.ReflTransGen.cases_head_iff]

/-- What holds of all nodes below holds of the node and of all nodes below its children. -/
theorem Reaches.forall_iff {p : α → Prop} {a : α} :
    (∀ b, Reaches next a b → p b) ↔ p a ∧ ∀ c ∈ next a, ∀ b, Reaches next c b → p b := by
  constructor
  · exact fun h => ⟨h a .refl, fun c hc b hb => h b (head_iff.mpr (.inr ⟨c, hc, hb⟩))⟩
  · rintro ⟨ha, hchildren⟩ b hb
    obtain rfl | ⟨c, hc, hb⟩ := head_iff.mp hb
    · exact ha
    · exact hchildren c hc b hb

/-- Descents through some of the children are descents. -/
theorem Reaches.mono {next' : α → List α} (hle : ∀ a, ∀ b ∈ next a, b ∈ next' a) {a b : α}
    (h : Reaches next a b) : Reaches next' a b :=
  Relation.ReflTransGen.mono (fun a b hb => hle a b hb) _ _ h

section Traversals

variable {rank : α → ℕ} (hrank : ∀ a, ∀ b ∈ next a, rank b < rank a)
include hrank

/-- Induction over the children. -/
theorem induction {motive : α → Prop} (h : ∀ a, (∀ b ∈ next a, motive b) → motive a) (a : α) :
    motive a := by
  induction hn : rank a using Nat.strongRecOn generalizing a with
  | _ n ih => exact h a fun b hb => ih (rank b) (hn ▸ hrank a b hb) b rfl

/-- **A property of all nodes below**, when it holds of a node whose children have it exactly
under a condition on the node. -/
theorem forall_reaches_iff {P Q : α → Prop}
    (hstep : ∀ a, (∀ b ∈ next a, P b) → (P a ↔ Q a)) (a : α) :
    (∀ b, Reaches next a b → P b) ↔ ∀ b, Reaches next a b → Q b := by
  constructor
  · exact fun hP b hb => (hstep b fun c hc => hP c (hb.tail hc)).mp (hP b hb)
  · intro hQ
    have hall : ∀ b, Reaches next a b → P b := fun b => by
      induction b using induction hrank with
      | h b ih =>
        exact fun hb => (hstep b fun c hc => ih c hc (hb.tail hc)).mpr (hQ b hb)
    exact hall

/-- **A search** that looks at a node, and then at its children in turn. -/
theorem search_iff {found search : α → Bool}
    (hsearch : ∀ a, search a = (found a || (next a).any search)) (a : α) :
    search a = true ↔ ∃ b, Reaches next a b ∧ found b = true := by
  induction a using induction hrank with
  | h a ih =>
    rw [hsearch, Bool.or_eq_true, List.any_eq_true]
    constructor
    · rintro (hfound | ⟨b, hb, hsearch⟩)
      · exact ⟨a, .refl, hfound⟩
      · obtain ⟨c, hc, hfound⟩ := (ih b hb).mp hsearch
        exact ⟨c, Reaches.head_iff.mpr (.inr ⟨b, hb, hc⟩), hfound⟩
    · rintro ⟨c, hc, hfound⟩
      obtain rfl | ⟨b, hb, hc⟩ := Reaches.head_iff.mp hc
      · exact .inl hfound
      · exact .inr ⟨b, hb, (ih b hb).mpr ⟨c, hc, hfound⟩⟩

/-- **A count** of a node and its children is zero where nothing is found. -/
theorem count_eq_zero_iff {weight count : α → ℕ}
    (hcount : ∀ a, count a = weight a + ((next a).map count).sum) (a : α) :
    count a = 0 ↔ ∀ b, Reaches next a b → weight b = 0 := by
  induction a using induction hrank with
  | h a ih =>
    rw [hcount, Nat.add_eq_zero_iff, List.sum_eq_zero_iff_forall_eq_nat]
    constructor
    · rintro ⟨hweight, hsum⟩ c hc
      obtain rfl | ⟨b, hb, hc⟩ := Reaches.head_iff.mp hc
      · exact hweight
      · exact (ih b hb).mp (hsum _ (List.mem_map_of_mem hb)) c hc
    · intro h
      refine ⟨h a .refl, fun n hn => ?_⟩
      obtain ⟨b, hb, rfl⟩ := List.mem_map.mp hn
      exact (ih b hb).mpr fun c hc => h c (Reaches.head_iff.mpr (.inr ⟨b, hb, hc⟩))

end Traversals

/-! ### Annotated trees -/

/-- A tree of nodes with a note at each. -/
inductive Annotated (α ι : Type) where
  | node (of : α) (info : ι) (children : List (Annotated α ι))

namespace Annotated

variable {ι : Type}

/-- The node. -/
def of : Annotated α ι → α
  | .node a _ _ => a

/-- The note. -/
def info : Annotated α ι → ι
  | .node _ i _ => i

/-- The trees below. -/
def children : Annotated α ι → List (Annotated α ι)
  | .node _ _ cs => cs

/-- What holds at every node of the tree. -/
def Each (p : Annotated α ι → Prop) (t : Annotated α ι) : Prop :=
  ∀ sub, Reaches children t sub → p sub

theorem each_iff {p : Annotated α ι → Prop} {t : Annotated α ι} :
    Each p t ↔ p t ∧ ∀ c ∈ t.children, Each p c :=
  Reaches.forall_iff

/-- The trees below a node are about the children of the node. -/
def Follows (next : α → List α) (t : Annotated α ι) : Prop := t.children.map of = next t.of

theorem reaches_of {t sub : Annotated α ι} (h : Each (Follows next) t)
    (hsub : Reaches children t sub) : Reaches next t.of sub.of := by
  induction hsub with
  | refl => exact .refl
  | @tail b c hb hc ih =>
      refine ih.tail ?_
      rw [← h b hb]
      exact List.mem_map_of_mem hc

theorem exists_of_reaches {t : Annotated α ι} {a : α} (h : Each (Follows next) t)
    (ha : Reaches next t.of a) : ∃ sub, Reaches children t sub ∧ sub.of = a := by
  induction ha with
  | refl => exact ⟨t, .refl, rfl⟩
  | @tail b c _ hc ih =>
      obtain ⟨sub, hsub, rfl⟩ := ih
      rw [← h sub hsub] at hc
      obtain ⟨child, hchild, rfl⟩ := List.mem_map.mp hc
      exact ⟨child, hsub.tail hchild, rfl⟩

/-- **What holds at every node of a tree**, when it depends on the node alone, holds of every
node that a descent reaches. -/
theorem each_of_iff {p : α → Prop} {t : Annotated α ι} (h : Each (Follows next) t) :
    Each (fun sub => p sub.of) t ↔ ∀ a, Reaches next t.of a → p a := by
  constructor
  · intro heach a ha
    obtain ⟨sub, hsub, rfl⟩ := exists_of_reaches h ha
    exact heach sub hsub
  · exact fun hall sub hsub => hall _ (reaches_of h hsub)

end Annotated

end Tree

end BreadLang
