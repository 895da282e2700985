import Mathlib.Data.List.Basic
import Mathlib.Logic.Function.Basic

/-!
# Cyclic probing

A hash table with open addressing visits the slots of a table of `cap` slots
in the cyclic order that begins at a home slot.  Everything its correctness
needs from that order is a rank: the number of steps the walk takes to reach a
slot.  Ranks of distinct slots are distinct, so "the slots the walk visits
before it reaches `s`" is the set of slots of smaller rank, and no later
argument has to mention the modulus.

* `Probe.rank h cap s` is the number of steps from `h` to `s`;
* `Probe.search` is the first slot in that order that satisfies a test, and
  `Probe.search_eq_some_iff` restates it through ranks.
-/

namespace BreadLang
namespace Probe

/-! ### Ranks -/

/-- The slot visited after `j` steps of the walk that starts at `h`. -/
def visit (h cap j : ℕ) : ℕ :=
  (h + j) % cap

/-- The number of steps the walk from `h` takes to reach slot `s`. -/
def rank (h cap s : ℕ) : ℕ :=
  (s + (cap - h % cap)) % cap

theorem visit_lt {h cap j : ℕ} (hcap : 0 < cap) : visit h cap j < cap :=
  Nat.mod_lt _ hcap

theorem rank_lt {h cap s : ℕ} (hcap : 0 < cap) : rank h cap s < cap :=
  Nat.mod_lt _ hcap

/-- The walk is at slot `s` after `rank` steps. -/
theorem visit_rank {h cap s : ℕ} (hs : s < cap) :
    visit h cap (rank h cap s) = s := by
  have hhome : h % cap < cap := Nat.mod_lt _ (by omega)
  have hsum : h % cap + (s + (cap - h % cap)) = s + cap := by omega
  rw [visit, rank, Nat.add_mod_mod, ← Nat.mod_add_mod, hsum,
    Nat.add_mod_right, Nat.mod_eq_of_lt hs]

/-- The rank of the slot visited after `j` steps is `j`. -/
theorem rank_visit {h cap j : ℕ} (hj : j < cap) :
    rank h cap (visit h cap j) = j := by
  have hhome : h % cap < cap := Nat.mod_lt _ (by omega)
  have hsum : h % cap + j + (cap - h % cap) = j + cap := by omega
  rw [rank, visit, ← Nat.mod_add_mod h, Nat.mod_add_mod, hsum,
    Nat.add_mod_right, Nat.mod_eq_of_lt hj]

/-- Only the home slot has rank zero, and it is visited first. -/
theorem visit_zero (h cap : ℕ) : visit h cap 0 = h % cap := by
  simp [visit]

/-- One step of the walk. -/
theorem visit_succ (h cap j : ℕ) :
    visit h cap (j + 1) = (visit h cap j + 1) % cap := by
  rw [visit, visit, Nat.mod_add_mod, Nat.add_assoc]

/-! ### Searching -/

/-- The first slot that passes `stop`, in the cyclic order from `h`. -/
def search (stop : ℕ → Bool) (h cap : ℕ) : Option ℕ :=
  ((List.range cap).find? fun j => stop (visit h cap j)).map (visit h cap)

/-- The search stops at `s` exactly when `s` passes the test and no slot of
smaller rank does. -/
theorem search_eq_some_iff {stop : ℕ → Bool} {h cap s : ℕ} :
    search stop h cap = some s ↔
      s < cap ∧ stop s = true ∧
        ∀ t < cap, rank h cap t < rank h cap s → stop t = false := by
  rw [search, Option.map_eq_some_iff]
  constructor
  · rintro ⟨j, hfind, rfl⟩
    rw [List.find?_range_eq_some] at hfind
    obtain ⟨hstop, hj, hbefore⟩ := hfind
    have hjlt : j < cap := List.mem_range.mp hj
    refine ⟨visit_lt (by omega), hstop, ?_⟩
    intro t ht hrank
    rw [rank_visit hjlt] at hrank
    have hfalse := hbefore _ hrank
    rw [visit_rank ht] at hfalse
    simpa using hfalse
  · rintro ⟨hs, hstop, hbefore⟩
    refine ⟨rank h cap s, ?_, visit_rank hs⟩
    have hcap : 0 < cap := by omega
    rw [List.find?_range_eq_some]
    refine ⟨by rw [visit_rank hs]; exact hstop,
      List.mem_range.mpr (rank_lt hcap), ?_⟩
    intro j hj
    have hjlt : j < cap := Nat.lt_trans hj (rank_lt hcap)
    have hfalse := hbefore (visit h cap j) (visit_lt hcap)
      (by rw [rank_visit hjlt]; exact hj)
    simp [hfalse]

/-- The search fails exactly when no slot passes the test. -/
theorem search_eq_none_iff {stop : ℕ → Bool} {h cap : ℕ} :
    search stop h cap = none ↔ ∀ t < cap, stop t = false := by
  rw [search, Option.map_eq_none_iff, List.find?_eq_none]
  constructor
  · intro hnone t ht
    have hfalse := hnone (rank h cap t)
      (List.mem_range.mpr (rank_lt (by omega)))
    rw [visit_rank ht] at hfalse
    simpa using hfalse
  · intro hall j hj
    have hcap : 0 < cap := by
      have := List.mem_range.mp hj
      omega
    simp [hall _ (visit_lt hcap)]

/-- Two tests that agree on the slots of the table find the same slot. -/
theorem search_congr {stop stop' : ℕ → Bool} {h cap : ℕ}
    (heq : ∀ t < cap, stop t = stop' t) :
    search stop h cap = search stop' h cap := by
  cases hs : search stop h cap with
  | none =>
      rw [search_eq_none_iff] at hs
      refine (search_eq_none_iff.mpr ?_).symm
      intro t ht
      rw [← heq t ht]
      exact hs t ht
  | some s =>
      rw [search_eq_some_iff] at hs
      obtain ⟨hlt, hstop, hbefore⟩ := hs
      refine (search_eq_some_iff.mpr ⟨hlt, ?_, ?_⟩).symm
      · rw [← heq s hlt]
        exact hstop
      · intro t ht hrank
        rw [← heq t ht]
        exact hbefore t ht hrank

/-- A search over a table in which some slot passes the test succeeds. -/
theorem search_isSome {stop : ℕ → Bool} {h cap t : ℕ} (ht : t < cap)
    (hstop : stop t = true) : ∃ s, search stop h cap = some s := by
  cases hs : search stop h cap with
  | some s => exact ⟨s, rfl⟩
  | none =>
      rw [search_eq_none_iff] at hs
      rw [hs t ht] at hstop
      exact absurd hstop (by simp)

end Probe
end BreadLang
