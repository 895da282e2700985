import Mathlib.Data.Set.Finite.Basic
import Mathlib.Logic.Relation
import Mathlib.Order.WellFounded

/-!
# Recursion along a finite graph

A graph is a relation `r`, and `Relation.TransGen r a a` is a cycle through `a`.
Where finitely many nodes are reached from a node and no cycle is among them, the
node is accessible, so a property may be proved of it along its edges.

`exists_depth` is the form of this for a recursion with a bound on its depth: when
every node needs one level more than its successors, every accessible node has a
depth that is enough, and so is every greater one.
-/

namespace BreadLang

open Relation

variable {α : Type} {r : α → α → Prop} {P : ℕ → α → Prop}

/-- **A node that reaches finitely many nodes and no cycle is accessible.** -/
theorem acc_of_acyclic {a : α} (hfinite : {b | ReflTransGen r a b}.Finite)
    (hacyclic : ∀ b, ReflTransGen r a b → ¬ TransGen r b b) : Acc (fun y x => r x y) a := by
  have hnodes : Finite {b // ReflTransGen r a b} := hfinite.to_subtype
  let below : {b // ReflTransGen r a b} → {b // ReflTransGen r a b} → Prop :=
    fun y x => TransGen r x.1 y.1
  have htrans : IsTrans _ below := ⟨fun _ _ _ hzy hyx => hyx.trans hzy⟩
  have hirrefl : Std.Irrefl below := ⟨fun x => hacyclic x.1 x.2⟩
  have hwf : WellFounded below := Finite.wellFounded_of_trans_of_irrefl below
  suffices h : ∀ x : {b // ReflTransGen r a b}, Acc (fun y x => r x y) x.1 from
    h ⟨a, .refl⟩
  intro x
  induction x using hwf.induction with
  | _ x ih => exact ⟨_, fun y hy => ih ⟨y, x.2.tail hy⟩ (.single hy)⟩

/-- Finitely many bounds have a common one. -/
theorem exists_bound {as : List α} (h : ∀ a ∈ as, ∃ N, ∀ n, N ≤ n → P n a) :
    ∃ N, ∀ n, N ≤ n → ∀ a ∈ as, P n a := by
  induction as with
  | nil => exact ⟨0, fun _ _ a ha => absurd ha List.not_mem_nil⟩
  | cons a as ih =>
      obtain ⟨N, hN⟩ := h a List.mem_cons_self
      obtain ⟨M, hM⟩ := ih fun b hb => h b (List.mem_cons_of_mem _ hb)
      refine ⟨max N M, fun n hn => List.forall_mem_cons.mpr ⟨?_, ?_⟩⟩
      · exact hN n ((le_max_left N M).trans hn)
      · exact hM n ((le_max_right N M).trans hn)

/-- **A recursion along the edges has a depth.** -/
theorem exists_depth {succs : α → List α} (hsuccs : ∀ a b, b ∈ succs a ↔ r a b)
    (hstep : ∀ n a, (∀ b, r a b → P n b) → P (n + 1) a) {a : α}
    (hacc : Acc (fun y x => r x y) a) : ∃ N, ∀ n, N ≤ n → P n a := by
  induction hacc with
  | intro a _ ih =>
      obtain ⟨N, hN⟩ := exists_bound fun b hb => ih b ((hsuccs a b).mp hb)
      refine ⟨N + 1, fun n hn => ?_⟩
      obtain ⟨m, rfl⟩ := Nat.exists_eq_add_of_le' hn
      refine hstep (m + N) a fun b hb => ?_
      exact hN _ (Nat.le_add_left N m) b ((hsuccs a b).mpr hb)

end BreadLang
