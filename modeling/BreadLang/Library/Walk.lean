import Mathlib.Data.List.Nodup
import Mathlib.Data.List.Perm.Subperm

/-!
# Walks along a pointer

A chain of nodes is followed by a partial function `next`.  `Finds next p a b`
says that the walk from `a` gets to a node on which `p` answers, and that the
first such node answers `b`.  It makes no assumption on the chain, which may
come back to a node it has visited.

`search` is the loop that does this in a bounded number of steps.  A walk inside
a finite set of nodes needs no more steps than there are nodes, because it meets
no node twice before it stops.
-/

namespace BreadLang

namespace Walk

variable {α β : Type} {next : α → Option α} {p : α → Option β} {a a' : α} {b : β}

/-- The walk from a node finds an answer after the given number of steps. -/
inductive FindsIn (next : α → Option α) (p : α → Option β) : ℕ → α → β → Prop where
  | here {a : α} {b : β} (h : p a = some b) : FindsIn next p 0 a b
  | step {k : ℕ} {a a' : α} {b : β} (hp : p a = none) (hnext : next a = some a')
      (h : FindsIn next p k a' b) : FindsIn next p (k + 1) a b

/-- **The walk from a node finds an answer.** -/
def Finds (next : α → Option α) (p : α → Option β) (a : α) (b : β) : Prop :=
  ∃ k, FindsIn next p k a b

/-- The loop: `none` when the steps run out, `some none` when the chain ends. -/
def search (next : α → Option α) (p : α → Option β) : ℕ → α → Option (Option β)
  | 0, _ => none
  | n + 1, a =>
      match p a with
      | some b => some (some b)
      | none =>
          match next a with
          | none => some none
          | some a' => search next p n a'

theorem Finds.here (h : p a = some b) : Finds next p a b :=
  ⟨0, .here h⟩

theorem Finds.step (hp : p a = none) (hnext : next a = some a') (h : Finds next p a' b) :
    Finds next p a b := by
  obtain ⟨k, h⟩ := h
  exact ⟨k + 1, .step hp hnext h⟩

/-- The number of steps is determined by the node. -/
theorem FindsIn.unique {k k' : ℕ} {b' : β} (h : FindsIn next p k a b)
    (h' : FindsIn next p k' a b') : k = k' ∧ b = b' := by
  induction h generalizing k' b' with
  | here hp =>
      cases h' with
      | here hp' => exact ⟨rfl, Option.some.inj (hp.symm.trans hp')⟩
      | step hp' _ _ =>
          rw [hp] at hp'
          cases hp'
  | step hp hnext h ih =>
      cases h' with
      | here hp' =>
          rw [hp] at hp'
          cases hp'
      | step _ hnext' h' =>
          cases hnext.symm.trans hnext'
          obtain ⟨rfl, rfl⟩ := ih h'
          exact ⟨rfl, rfl⟩

theorem Finds.unique {b' : β} (h : Finds next p a b) (h' : Finds next p a b') : b = b' := by
  obtain ⟨k, h⟩ := h
  obtain ⟨k', h'⟩ := h'
  exact (h.unique h').2

/-- The nodes that the walk visits are pairwise distinct: they are at different
distances from the end. -/
theorem FindsIn.visited {S : List α} {k : ℕ} (hclosed : ∀ a ∈ S, ∀ a', next a = some a' → a' ∈ S)
    (ha : a ∈ S) (h : FindsIn next p k a b) :
    ∃ visited : List α, visited.length = k + 1 ∧ visited ⊆ S ∧ visited.Nodup ∧
      ∀ x ∈ visited, ∃ j ≤ k, FindsIn next p j x b := by
  induction h with
  | @here a b hp => exact ⟨[a], rfl, by simpa using ha, List.nodup_singleton a, by
      intro x hx
      rw [List.mem_singleton.mp hx]
      exact ⟨0, Nat.le_refl _, .here hp⟩⟩
  | @step k a a' b hp hnext h ih =>
      obtain ⟨visited, hlength, hsubset, hnodup, hdistance⟩ := ih (hclosed a ha a' hnext)
      refine ⟨a :: visited, by rw [List.length_cons, hlength],
        List.cons_subset.mpr ⟨ha, hsubset⟩, List.nodup_cons.mpr ⟨fun hmem => ?_, hnodup⟩, ?_⟩
      · -- a second visit would be nearer to the end
        obtain ⟨j, hj, hfinds⟩ := hdistance a hmem
        have heq := (hfinds.unique (.step hp hnext h)).1
        omega
      · intro x hx
        rcases List.mem_cons.mp hx with rfl | hx
        · exact ⟨k + 1, Nat.le_refl _, .step hp hnext h⟩
        · obtain ⟨j, hj, hfinds⟩ := hdistance x hx
          exact ⟨j, by omega, hfinds⟩

theorem search_of_findsIn {k n : ℕ} (h : FindsIn next p k a b) (hn : k < n) :
    search next p n a = some (some b) := by
  induction h generalizing n with
  | here hp =>
      obtain ⟨m, rfl⟩ := Nat.exists_eq_succ_of_ne_zero (Nat.ne_of_gt hn)
      simp only [search, hp]
  | step hp hnext _ ih =>
      obtain ⟨m, rfl⟩ := Nat.exists_eq_succ_of_ne_zero (Nat.ne_of_gt (Nat.zero_lt_of_lt hn))
      simp only [search, hp, hnext]
      exact ih (Nat.lt_of_succ_lt_succ hn)

theorem finds_of_search {n : ℕ} (h : search next p n a = some (some b)) : Finds next p a b := by
  induction n generalizing a with
  | zero => cases h
  | succ n ih =>
      unfold search at h
      cases hp : p a with
      | some b' =>
          rw [hp] at h
          cases h
          exact .here hp
      | none =>
          cases hnext : next a with
          | none =>
              rw [hp, hnext] at h
              cases h
          | some a' =>
              rw [hp, hnext] at h
              exact .step hp hnext (ih h)

/-- **The loop finds what the walk finds**, when it may take as many steps as
there are nodes. -/
theorem search_eq_some_iff {S : List α} {n : ℕ}
    (hclosed : ∀ a ∈ S, ∀ a', next a = some a' → a' ∈ S) (ha : a ∈ S) (hn : S.length ≤ n) :
    search next p n a = some (some b) ↔ Finds next p a b := by
  refine ⟨finds_of_search, fun h => ?_⟩
  obtain ⟨k, h⟩ := h
  obtain ⟨visited, hlength, hsubset, hnodup, -⟩ := h.visited hclosed ha
  have hle := (hnodup.subperm hsubset).length_le
  exact search_of_findsIn h (by omega)

/-- Two nodes with the same answer and the same next node. -/
theorem search_congr (hp : p a = p a') (hnext : next a = next a') (n : ℕ) :
    search next p n a = search next p n a' := by
  cases n with
  | zero => rfl
  | succ n =>
      unfold search
      rw [hp, hnext]

theorem search_map {γ : Type} (g : β → γ) (n : ℕ) (a : α) :
    search next (fun a => (p a).map g) n a = (search next p n a).map (Option.map g) := by
  induction n generalizing a with
  | zero => rfl
  | succ n ih =>
      unfold search
      cases hp : p a with
      | some b => rfl
      | none =>
          cases hnext : next a with
          | none => rfl
          | some a' => exact ih a'

/-- A walk whose nodes stand for those of another walk finds the same answers. -/
theorem finds_map_iff {γ : Type} {next' : γ → Option γ} {p' : γ → Option β} {f : α → γ}
    (hnext : ∀ a, next' (f a) = (next a).map f) (hp : ∀ a, p' (f a) = p a) :
    Finds next' p' (f a) b ↔ Finds next p a b := by
  constructor
  · rintro ⟨k, h⟩
    induction k generalizing a with
    | zero =>
        cases h with
        | here h =>
            rw [hp] at h
            exact .here h
    | succ k ih =>
        cases h with
        | step hnone hsome h =>
            rw [hp] at hnone
            rw [hnext] at hsome
            obtain ⟨a', ha', rfl⟩ := Option.map_eq_some_iff.mp hsome
            exact .step hnone ha' (ih h)
  · rintro ⟨k, h⟩
    induction h with
    | here h => exact .here (by rw [hp, h])
    | step hnone hsome _ ih =>
        exact .step (by rw [hp, hnone]) (by rw [hnext, hsome, Option.map_some]) ih

/-- The answers to `p` and what is made of them. -/
theorem finds_map_answer {γ : Type} {g : α → γ} {c : γ} {holds : α → Bool} :
    Finds next (fun a => if holds a then some (g a) else none) a c ↔
      ∃ t, Finds next (fun a => if holds a then some a else none) a t ∧ g t = c := by
  constructor
  · rintro ⟨k, h⟩
    induction h with
    | @here a c h =>
        split at h
        · rename_i ha
          exact ⟨a, .here (by simp [ha]), Option.some.inj h⟩
        · cases h
    | @step k a a' c hnone hsome _ ih =>
        obtain ⟨t, ht, hc⟩ := ih
        refine ⟨t, .step ?_ hsome ht, hc⟩
        by_cases ha : holds a = true <;> simp [ha] at hnone ⊢
  · rintro ⟨t, ⟨k, h⟩, rfl⟩
    induction h with
    | @here a t h =>
        split at h
        · rename_i ha
          cases h
          exact .here (by simp [ha])
        · cases h
    | @step k a a' t hnone hsome _ ih =>
        refine .step ?_ hsome ih
        by_cases ha : holds a = true <;> simp [ha] at hnone ⊢

end Walk

end BreadLang
