import BreadLang.Library.Chain
import Mathlib.Order.Bounds.Basic

/-!
# The order of a hierarchy

Where every node has at most one parent, `Ancestry next` is the nodes in the order in which the
ancestors of a node are above it.  The ancestors of a node are its chain.  The first node of a
chain that is above another node is the least upper bound of the two, so bounds of a list can be
found pair by pair.
-/

namespace BreadLang

open Relation

/-! ### Chains without cycles -/

namespace Walk

variable {α : Type} {next : α → Option α} {n : ℕ} {a x : α} {l : List α}

/-- What is on a chain is reached. -/
theorem reflTransGen_of_mem_chain (h : chain next n a = some l) (hx : x ∈ l) :
    ReflTransGen (fun a b => next a = some b) a x := by
  induction n generalizing a l with
  | zero => cases h
  | succ n ih =>
    cases hnext : next a with
    | none =>
      rw [chain_succ_none hnext] at h
      obtain rfl := Option.some.inj h
      rw [List.mem_singleton.mp hx]
    | some above =>
      rw [chain_succ_some hnext, Option.map_eq_some_iff] at h
      obtain ⟨l', hl', rfl⟩ := h
      rcases List.mem_cons.mp hx with rfl | hx
      · exact .refl
      · exact .head hnext (ih hl' hx)

/-- No node is twice on a chain. -/
theorem nodup_chain (h : chain next n a = some l) : l.Nodup := by
  induction n generalizing a l with
  | zero => cases h
  | succ n ih =>
    have hcycle := not_transGen_of_chain h
    cases hnext : next a with
    | none =>
      rw [chain_succ_none hnext] at h
      obtain rfl := Option.some.inj h
      exact List.nodup_singleton a
    | some above =>
      rw [chain_succ_some hnext, Option.map_eq_some_iff] at h
      obtain ⟨l', hl', rfl⟩ := h
      refine List.nodup_cons.mpr ⟨fun hmem => hcycle ?_, ih hl'⟩
      exact .head' hnext (reflTransGen_of_mem_chain hl' hmem)

/-- A chain takes as many steps as it has nodes. -/
theorem chain_length (h : chain next n a = some l) : chain next l.length a = some l := by
  induction n generalizing a l with
  | zero => cases h
  | succ n ih =>
    cases hnext : next a with
    | none =>
      rw [chain_succ_none hnext] at h
      obtain rfl := Option.some.inj h
      exact chain_succ_none hnext
    | some above =>
      rw [chain_succ_some hnext, Option.map_eq_some_iff] at h
      obtain ⟨l', hl', rfl⟩ := h
      rw [List.length_cons, chain_succ_some hnext, ih hl', Option.map_some]

/-- **A chain without cycles takes no more steps than there are nodes.** -/
theorem exists_chain_of_acyclic {S : List α} (hclosed : ∀ a ∈ S, ∀ b, next a = some b → b ∈ S)
    (ha : a ∈ S) (hacyclic : ∀ b, ¬ TransGen (fun a b => next a = some b) b b)
    (hn : S.length ≤ n) : ∃ l, chain next n a = some l := by
  obtain ⟨m, l, hl⟩ := (exists_chain_iff hclosed ha).mpr fun b _ => hacyclic b
  have hsub : l ⊆ S := fun x hx =>
    mem_of_reflTransGen hclosed ha (reflTransGen_of_mem_chain hl hx)
  have hle := ((nodup_chain hl).subperm hsub).length_le
  exact ⟨l, chain_mono (chain_length hl) (hle.trans hn)⟩

end Walk

/-! ### The order -/

/-- The nodes of a hierarchy; the ancestors of a node are above it. -/
@[ext] structure Ancestry {α : Type} (next : α → Option α) where
  node : α

namespace Ancestry

variable {α : Type} {next : α → Option α}

/-- The node above a node. -/
def parent (a : Ancestry next) : Option (Ancestry next) := (next a.node).map Ancestry.mk

instance : Preorder (Ancestry next) where
  le := ReflTransGen fun a b => parent a = some b
  le_refl _ := .refl
  le_trans _ _ _ := ReflTransGen.trans

theorem le_def {a b : Ancestry next} : a ≤ b ↔ ReflTransGen (fun a b => parent a = some b) a b :=
  Iff.rfl

/-- Where the hierarchy has no cycle, the order is antisymmetric. -/
theorem eq_of_le_of_le {a b : Ancestry next}
    (hacyclic : ¬ TransGen (fun a b : Ancestry next => parent a = some b) a a)
    (hab : a ≤ b) (hba : b ≤ a) : a = b := by
  rcases reflTransGen_iff_eq_or_transGen.mp (le_def.mp hab) with h | h
  · exact h.symm
  · exact absurd (h.trans_left (le_def.mp hba)) hacyclic

variable {n : ℕ} {a b x y z : Ancestry next} {l : List (Ancestry next)}
  {s : Set (Ancestry next)}

/-! ### The chain of a node -/

/-- The chain of a node is the list of the nodes above it. -/
theorem mem_chain_iff (h : Walk.chain parent n a = some l) : x ∈ l ↔ a ≤ x := by
  induction n generalizing a l with
  | zero => cases h
  | succ n ih =>
    cases hnext : parent a with
    | none =>
      rw [Walk.chain_succ_none hnext] at h
      obtain rfl := Option.some.inj h
      rw [List.mem_singleton, le_def, reflTransGen_iff_eq]
      intro b hb
      rw [hnext] at hb
      exact absurd hb (by simp)
    | some above =>
      rw [Walk.chain_succ_some hnext, Option.map_eq_some_iff] at h
      obtain ⟨l', hl', rfl⟩ := h
      rw [List.mem_cons, ih hl']
      constructor
      · rintro (rfl | hx)
        · exact le_rfl
        · exact le_trans (ReflTransGen.single hnext) hx
      · intro hx
        rcases ReflTransGen.cases_head (le_def.mp hx) with rfl | ⟨b, hb, hx⟩
        · exact .inl rfl
        · obtain rfl : above = b := Option.some.inj (hnext.symm.trans hb)
          exact .inr hx

/-- In a chain every node is above those before it. -/
theorem pairwise_chain (h : Walk.chain parent n a = some l) :
    l.Pairwise (· ≤ ·) := by
  induction n generalizing a l with
  | zero => cases h
  | succ n ih =>
    cases hnext : parent a with
    | none =>
      rw [Walk.chain_succ_none hnext] at h
      obtain rfl := Option.some.inj h
      exact List.pairwise_singleton _ _
    | some above =>
      have hchain := h
      rw [Walk.chain_succ_some hnext, Option.map_eq_some_iff] at h
      obtain ⟨l', hl', rfl⟩ := h
      refine List.pairwise_cons.mpr ⟨fun x hx => ?_, ih hl'⟩
      exact (mem_chain_iff hchain).mp (List.mem_cons_of_mem a hx)

/-- **The first node of the chain that is above another node is the least upper bound.** -/
theorem isLUB_of_find (h : Walk.chain parent n a = some l)
    {before after : List (Ancestry next)} (hl : l = before ++ x :: after) (hx : b ≤ x)
    (hbefore : ∀ y ∈ before, ¬ b ≤ y) : IsLUB {a, b} x := by
  have hax : a ≤ x := (mem_chain_iff h).mp (by simp [hl])
  constructor
  · rintro y (rfl | rfl)
    · exact hax
    · exact hx
  · intro y hy
    have hmem : y ∈ l := (mem_chain_iff h).mpr (hy (.inl rfl))
    have hby : b ≤ y := hy (.inr rfl)
    rw [hl, List.mem_append, List.mem_cons] at hmem
    rcases hmem with hmem | rfl | hmem
    · exact absurd hby (hbefore y hmem)
    · exact le_rfl
    · have hpairs := pairwise_chain h
      rw [hl, List.pairwise_append] at hpairs
      exact (List.pairwise_cons.mp hpairs.2.1).1 y hmem

/-- Where no node of the chain is above the other node, the two have no bound. -/
theorem not_bddAbove_of_none (h : Walk.chain parent n a = some l)
    (hnone : ∀ y ∈ l, ¬ b ≤ y) : ¬ BddAbove ({a, b} : Set (Ancestry next)) := by
  rintro ⟨y, hy⟩
  exact hnone y ((mem_chain_iff h).mpr (hy (.inl rfl))) (hy (.inr rfl))

/-! ### Bounds, pair by pair -/

theorem upperBounds_insert_of_isLUB (hz : IsLUB s z) :
    upperBounds (insert b s) = upperBounds {z, b} := by
  rw [upperBounds_insert, hz.upperBounds_eq, Set.inter_comm, upperBounds_insert,
    upperBounds_singleton]

/-- The bound of a set and one more node is the bound of a pair. -/
theorem isLUB_insert_iff (hz : IsLUB s z) : IsLUB (insert b s) x ↔ IsLUB {z, b} x :=
  isLUB_congr (upperBounds_insert_of_isLUB hz)

theorem bddAbove_insert_iff (hz : IsLUB s z) :
    BddAbove (insert b s) ↔ BddAbove ({z, b} : Set (Ancestry next)) := by
  unfold BddAbove
  rw [upperBounds_insert_of_isLUB hz]

end Ancestry

end BreadLang
