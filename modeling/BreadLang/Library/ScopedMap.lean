import Mathlib.Data.List.Forall2
import Mathlib.Logic.Function.Basic

/-!
# Stacks of maps

A stack of partial maps, the innermost one first: a key is looked up in the innermost map
that has it, a declaration adds to the innermost map and an update goes to where the
look-up finds the key.

`Forall₂` of a relation between maps says what an operation does to each of the maps that
it leaves in place; `outer` are those below a level of the stack, and `inner` the others.
-/

namespace BreadLang

/-- A stack of partial maps. -/
abbrev ScopedMap (K B : Type) := List (K → Option B)

namespace ScopedMap

variable {K B : Type} {m : ScopedMap K B} {k : K} {b : B}

/-- What the innermost map with the key has for it. -/
def lookup (m : ScopedMap K B) (k : K) : Option B :=
  m.findSome? fun scope => scope k

/-- The outermost maps, as many as the level says. -/
def outer (level : ℕ) (m : ScopedMap K B) : ScopedMap K B :=
  m.drop (m.length - level)

/-- The maps above that level. -/
def inner (level : ℕ) (m : ScopedMap K B) : ScopedMap K B :=
  m.take (m.length - level)

/-- The innermost map has the key. -/
def declares : ScopedMap K B → K → Bool
  | [], _ => false
  | scope :: _, k => (scope k).isSome

theorem lookup_cons_of_some {scope : K → Option B} (h : scope k = some b) :
    lookup (scope :: m) k = some b := by
  rw [lookup, List.findSome?_cons, h]

theorem lookup_cons_of_none {scope : K → Option B} (h : scope k = none) :
    lookup (scope :: m) k = lookup m k := by
  rw [lookup, List.findSome?_cons, h]
  rfl

theorem forall₂_outer {R : (K → Option B) → (K → Option B) → Prop} {m' : ScopedMap K B}
    (h : List.Forall₂ R m m') (level : ℕ) : List.Forall₂ R (outer level m) (outer level m') := by
  rw [outer, outer, h.length_eq]
  exact List.forall₂_drop _ h

theorem outer_cons {scope : K → Option B} {level : ℕ} (h : level ≤ m.length) :
    outer level (scope :: m) = outer level m := by
  rw [outer, outer, List.length_cons, Nat.succ_sub h, List.drop_succ_cons]

theorem inner_cons {scope : K → Option B} {level : ℕ} (h : level ≤ m.length) :
    inner level (scope :: m) = scope :: inner level m := by
  rw [inner, inner, List.length_cons, Nat.succ_sub h, List.take_succ_cons]

theorem outer_of_length_le {level : ℕ} (h : m.length ≤ level) : outer level m = m := by
  rw [outer, Nat.sub_eq_zero_of_le h, List.drop_zero]

@[simp] theorem outer_nil (level : ℕ) : outer level ([] : ScopedMap K B) = [] :=
  List.drop_nil

/-- A key that no inner map has is looked up in the outer ones. -/
theorem lookup_outer {level : ℕ} (h : lookup (inner level m) k = none) :
    lookup (outer level m) k = lookup m k := by
  induction m with
  | nil => rw [outer_nil]
  | cons scope m ih =>
      rcases Nat.lt_or_ge m.length level with hlevel | hlevel
      · rw [outer_of_length_le hlevel]
      rw [inner_cons hlevel] at h
      cases hk : scope k with
      | some b =>
          rw [lookup_cons_of_some hk] at h
          cases h
      | none =>
          rw [lookup_cons_of_none hk] at h
          rw [outer_cons hlevel, lookup_cons_of_none hk, ih h]

/-- Leaving maps at the inner end leaves the outer ones. -/
theorem outer_drop {level n : ℕ} (h : level + n ≤ m.length) :
    outer level (m.drop n) = outer level m := by
  rw [outer, outer, List.drop_drop, List.length_drop]
  congr 1
  omega

/-! ### Changes -/

variable [DecidableEq K]

/-- Add a key to the innermost map. -/
def declare : ScopedMap K B → K → B → ScopedMap K B
  | [], _, _ => []
  | scope :: m, k, b => Function.update scope k (some b) :: m

/-- Change what the innermost map with the key has for it. -/
def update : ScopedMap K B → K → B → ScopedMap K B
  | [], _, _ => []
  | scope :: m, k, b =>
      if (scope k).isSome then Function.update scope k (some b) :: m else scope :: update m k b

@[simp] theorem length_update (m : ScopedMap K B) (k : K) (b : B) :
    (m.update k b).length = m.length := by
  induction m with
  | nil => rfl
  | cons scope m ih =>
      rw [update]
      split
      · rfl
      · rw [List.length_cons, ih, List.length_cons]

@[simp] theorem length_declare (m : ScopedMap K B) (k : K) (b : B) :
    (m.declare k b).length = m.length := by
  cases m <;> rfl

/-- Updating a key that has just been declared declares it with the new value. -/
theorem update_declare (m : ScopedMap K B) (k : K) (b b' : B) :
    (m.declare k b).update k b' = m.declare k b' := by
  cases m with
  | nil => rfl
  | cons scope m =>
      rw [declare, update, Function.update_self, if_pos Option.isSome_some, Function.update_idem,
        declare]

/-- Updating a key with what it has changes nothing. -/
theorem update_lookup (h : lookup m k = some b) : m.update k b = m := by
  induction m with
  | nil => rfl
  | cons scope m ih =>
      rw [update]
      cases hk : scope k with
      | some old =>
          rw [lookup_cons_of_some hk] at h
          cases h
          rw [if_pos Option.isSome_some, ← hk, Function.update_eq_self]
      | none =>
          rw [lookup_cons_of_none hk] at h
          rw [if_neg (by simp), ih h]

/-- **What an update does to each map.**  The relation holds of a map and itself, and of
the map that has the key and what becomes of it. -/
theorem forall₂_update {R : (K → Option B) → (K → Option B) → Prop} (hrefl : ∀ scope, R scope scope)
    (hchanged : ∀ scope old, lookup m k = some old → scope k = some old →
      R scope (Function.update scope k (some b))) : List.Forall₂ R m (m.update k b) := by
  induction m with
  | nil => exact .nil
  | cons scope m ih =>
      rw [update]
      cases hk : scope k with
      | some old =>
          rw [if_pos Option.isSome_some]
          refine .cons (hchanged scope old (lookup_cons_of_some hk) hk) ?_
          exact List.forall₂_same.mpr fun scope _ => hrefl scope
      | none =>
          rw [if_neg (by simp)]
          refine .cons (hrefl scope) (ih fun scope' old hlookup => hchanged scope' old ?_)
          rw [lookup_cons_of_none hk, hlookup]

/-- What a declaration of a new key does to each map. -/
theorem forall₂_declare {R : (K → Option B) → (K → Option B) → Prop}
    (hrefl : ∀ scope, R scope scope)
    (hnew : ∀ scope, scope k = none → R scope (Function.update scope k (some b)))
    (h : m.declares k = false) : List.Forall₂ R m (m.declare k b) := by
  cases m with
  | nil => exact .nil
  | cons scope m =>
      have hnone : scope k = none := Option.not_isSome_iff_eq_none.mp (by simpa [declares] using h)
      exact .cons (hnew scope hnone) (List.forall₂_same.mpr fun scope _ => hrefl scope)

/-- An update of a key that an inner map has concerns no outer one. -/
theorem outer_update_of_inner {level : ℕ} (h : lookup (inner level m) k ≠ none) :
    outer level (m.update k b) = outer level m := by
  induction m with
  | nil => rfl
  | cons scope m ih =>
      rcases Nat.lt_or_ge m.length level with hlevel | hlevel
      · rw [inner, List.length_cons, Nat.sub_eq_zero_of_le hlevel] at h
        exact absurd rfl h
      rw [inner_cons hlevel] at h
      rw [update]
      split
      · rw [outer_cons hlevel, outer_cons hlevel]
      · rename_i hk
        rw [lookup_cons_of_none (Option.not_isSome_iff_eq_none.mp hk)] at h
        rw [outer_cons (by rwa [length_update]), outer_cons hlevel, ih h]

/-- An update of a key that no inner map has is one of the outer maps. -/
theorem outer_update {level : ℕ} (h : lookup (inner level m) k = none) :
    outer level (m.update k b) = (outer level m).update k b := by
  induction m with
  | nil => rw [outer_nil, update, outer_nil]
  | cons scope m ih =>
      rcases Nat.lt_or_ge m.length level with hlevel | hlevel
      · have hle : (scope :: m).length ≤ level := hlevel
        rw [outer_of_length_le hle, outer_of_length_le ((length_update _ k b).symm ▸ hle)]
      rw [inner_cons hlevel] at h
      cases hk : scope k with
      | some b' =>
          rw [lookup_cons_of_some hk] at h
          cases h
      | none =>
          rw [lookup_cons_of_none hk] at h
          rw [update, hk, if_neg (by simp), outer_cons (by rwa [length_update]),
            outer_cons hlevel, ih h]

/-- A declaration concerns no map below the innermost one. -/
theorem outer_declare {level : ℕ} (h : level < m.length) :
    outer level (m.declare k b) = outer level m := by
  cases m with
  | nil => exact absurd h (Nat.not_lt_zero _)
  | cons scope m =>
      have hle : level ≤ m.length := Nat.le_of_lt_succ h
      rw [declare, outer_cons hle, outer_cons hle]

end ScopedMap
end BreadLang
