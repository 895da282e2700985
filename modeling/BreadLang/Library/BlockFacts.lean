import BreadLang.Library.BasicBlocks
import Mathlib.Data.List.GetD

/-!
# Facts at the places of basic blocks

What is known at the beginning of each block, and what an instruction does to it, determine
what is known at every place that control comes to: the items of a block up to its first
terminator.  `none` stands where control does not come.

A function is `Sound` when every item suits the fact at its place.  The operations of a
builder keep this when the one item that they append suits the fact at the place where it is
appended; no other fact changes.
-/

namespace BreadLang

namespace BasicBlocks

variable {I T L : Type} (transfer : ℕ → I → L → Option L)

/-- What is known behind some items of a block. -/
def factAfter (i : ℕ) : Option L → List (Item I T) → Option L
  | fact, [] => fact
  | fact, .instr x :: xs => factAfter i (fact.bind (transfer i x)) xs
  | _, .terminator _ :: _ => none

variable {transfer}

@[simp] theorem factAfter_none (i : ℕ) (xs : List (Item I T)) :
    factAfter transfer i none xs = none := by
  induction xs with
  | nil => rfl
  | cons x xs ih =>
      cases x with
      | instr x => exact ih
      | terminator t => rfl

theorem factAfter_append (i : ℕ) (fact : Option L) (xs ys : List (Item I T)) :
    factAfter transfer i fact (xs ++ ys) =
      factAfter transfer i (factAfter transfer i fact xs) ys := by
  induction xs generalizing fact with
  | nil => rfl
  | cons x xs ih =>
      cases x with
      | instr x => exact ih _
      | terminator t => exact (factAfter_none i ys).symm

/-- Control comes behind items without a terminator only. -/
theorem isOpen_of_factAfter {i : ℕ} {fact : Option L} {xs : List (Item I T)} {l : L}
    (h : factAfter transfer i fact xs = some l) : Builder.IsOpen xs := by
  induction xs generalizing fact with
  | nil => exact Builder.isOpen_nil
  | cons x xs ih =>
      cases x with
      | instr x =>
          intro y hy
          rcases List.mem_cons.mp hy with rfl | hy
          · rfl
          · exact ih h y hy
      | terminator t => cases h

namespace Builder

variable {b b' : Builder I T} {entry entry' : List (Option L)} {i k : ℕ}

variable (transfer) in
/-- **What is known at a place of a function**: behind the first `k` items of a block, when
`entry` has what is known at the beginnings of the blocks. -/
def factAt (b : Builder I T) (entry : List (Option L)) (i k : ℕ) : Option L :=
  factAfter transfer i (entry.getD i none) ((b.block i).take k)

@[simp] theorem factAt_zero (b : Builder I T) (entry : List (Option L)) (i : ℕ) :
    b.factAt transfer entry i 0 = entry.getD i none := rfl

theorem factAt_succ {x : Item I T} (hx : (b.block i)[k]? = some x) :
    b.factAt transfer entry i (k + 1) =
      factAfter transfer i (b.factAt transfer entry i k) [x] := by
  rw [factAt, List.take_add_one, hx, factAfter_append]
  rfl

theorem factAt_instr {x : I} (hx : (b.block i)[k]? = some (.instr x)) :
    b.factAt transfer entry i (k + 1) = (b.factAt transfer entry i k).bind (transfer i x) := by
  rw [factAt_succ hx]
  rfl

/-- No terminator is before a place that control comes to. -/
theorem isOpen_of_factAt {l : L} (h : b.factAt transfer entry i k = some l) :
    IsOpen ((b.block i).take k) :=
  isOpen_of_factAfter h

/-- Something stands at every place that control comes to, if each block is complete. -/
theorem exists_item_of_factAt {l : L} (hwf : WellFormed b) (hi : i < b.size)
    (h : b.factAt transfer entry i k = some l) : ∃ x, (b.block i)[k]? = some x := by
  obtain ⟨ys, t, -, hblock⟩ := hwf i hi
  have hopen := isOpen_of_factAt h
  have hlt : k < (b.block i).length := by
    by_contra hle
    rw [List.take_of_length_le (Nat.le_of_not_lt hle), hblock] at hopen
    exact absurd (hopen _ (List.mem_append_right ys List.mem_cons_self)) (by simp [Item.isTerminator])
  exact ⟨_, List.getElem?_eq_getElem hlt⟩

/-- Facts stay when the blocks grow behind their places. -/
theorem factAt_congr (hblock : b.block i <+: b'.block i) (hk : k ≤ (b.block i).length)
    (hentry : entry'.getD i none = entry.getD i none) :
    b'.factAt transfer entry' i k = b.factAt transfer entry i k := by
  obtain ⟨ys, hys⟩ := hblock
  rw [factAt, factAt, hentry, ← hys, List.take_append_of_le_length hk]

theorem factAt_append_of_le (x : Item I T) (hk : k ≤ (b.block i).length) :
    (b.append x).factAt transfer entry i k = b.factAt transfer entry i k :=
  factAt_congr (((Extends.refl b).append x).2 i) hk rfl

/-! ### Soundness -/

section Sound

variable {ok : List (Option L) → Item I T → L → Prop}

variable (transfer ok) in
/-- **Every item suits the fact at its place.** -/
def Sound (b : Builder I T) (entry : List (Option L)) : Prop :=
  ∀ i k x l, (b.block i)[k]? = some x → b.factAt transfer entry i k = some l → ok entry x l

theorem Sound.append {x : Item I T} (h : Sound transfer ok b entry)
    (hx : ∀ l, b.factAt transfer entry b.current (b.block b.current).length = some l →
      ok entry x l) : Sound transfer ok (b.append x) entry := by
  intro i k y l hy hfact
  rw [block_append] at hy
  split at hy
  · rename_i hi
    subst hi
    rw [List.getElem?_append] at hy
    split at hy
    · rename_i hk
      rw [factAt_append_of_le x hk.le] at hfact
      exact h _ k y l hy hfact
    · rename_i hk
      have hzero : k - (b.block b.current).length = 0 := by
        by_contra hne
        rw [List.getElem?_eq_none (by simpa using Nat.one_le_iff_ne_zero.mpr hne)] at hy
        cases hy
      rw [hzero] at hy
      obtain rfl := Option.some.inj hy
      obtain rfl : k = (b.block b.current).length := by omega
      rw [factAt_append_of_le _ le_rfl] at hfact
      exact hx l hfact
  · rename_i hi
    have hlt := (List.getElem?_eq_some_iff.mp hy).1
    rw [factAt_append_of_le x hlt.le] at hfact
    exact h i k y l hy hfact

/-- New blocks are empty, and come behind those whose facts are given. -/
theorem Sound.addBlocks {n : ℕ} {facts : List (Option L)} (h : Sound transfer ok b entry)
    (hlength : entry.length = b.size)
    (hmono : ∀ x l, ok entry x l → ok (entry ++ facts) x l) :
    Sound transfer ok (b.addBlocks n) (entry ++ facts) := by
  intro i k x l hx hfact
  have hi : i < b.size := by
    by_contra hle
    rw [block_addBlocks, block_of_size_le (Nat.le_of_not_lt hle)] at hx
    cases hx
  rw [block_addBlocks] at hx
  rw [factAt, block_addBlocks, List.getD_append _ _ _ _ (by omega)] at hfact
  exact hmono x l (h i k x l hx hfact)

theorem Sound.positionAt (h : Sound transfer ok b entry) (j : ℕ) :
    Sound transfer ok (b.positionAt j) entry := by
  intro i k x l hx hfact
  rw [block_positionAt] at hx
  rw [factAt, block_positionAt] at hfact
  exact h i k x l hx hfact

end Sound

end Builder

end BasicBlocks

end BreadLang
