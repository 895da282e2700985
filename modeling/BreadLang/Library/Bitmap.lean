import Mathlib.Data.Nat.Count
import Mathlib.Algebra.Ring.Nat

/-!
# Bitmaps of words

A set of small numbers is kept as a list of words: the number `i` is in the set
when bit `i % w` of word `i / w` is set.  `takeFirst` removes the least number,
`add` puts one in, and `count` is the number of members.  The lemmas say what each
operation does to the members and to their number.
-/

namespace BreadLang

namespace Bitmap

variable {w : ℕ} {words words' : List (BitVec w)} {i j : ℕ}

/-- Whether a number is in the set. -/
def test (words : List (BitVec w)) (i : ℕ) : Bool :=
  (words[i / w]?.getD 0).getLsbD (i % w)

/-- Set the bit of a number. -/
def add (words : List (BitVec w)) (i : ℕ) : List (BitVec w) :=
  words.modify (i / w) fun word => word ||| 1#w <<< (i % w)

/-- The least number of the set, and the set without it.  The loop skips the words
that are zero. -/
def takeFirst : List (BitVec w) → Option (ℕ × List (BitVec w))
  | [] => none
  | word :: words =>
      if word = 0 then (takeFirst words).map fun (i, words) => (w + i, word :: words)
      else some (word.ctz.toNat, (word &&& ~~~(1#w <<< word.ctz.toNat)) :: words)

/-- The number of bits that are set. -/
def count (words : List (BitVec w)) : ℕ :=
  Nat.count (fun i => test words i = true) (w * words.length)

/-! ### Membership -/

theorem test_of_le (h : w * words.length ≤ i) : test words i = false := by
  rcases Nat.eq_zero_or_pos w with rfl | hw
  · simp [test]
  · have hdiv : words.length ≤ i / w := (Nat.le_div_iff_mul_le hw).mpr (by rwa [Nat.mul_comm])
    simp [test, List.getElem?_eq_none hdiv]

theorem lt_of_test (h : test words i = true) : i < w * words.length := by
  by_contra hle
  rw [test_of_le (Nat.le_of_not_lt hle)] at h
  cases h

theorem test_cons_of_lt {word : BitVec w} (h : i < w) : test (word :: words) i = word.getLsbD i := by
  simp [test, Nat.div_eq_of_lt h, Nat.mod_eq_of_lt h]

theorem test_cons_add (hw : 0 < w) {word : BitVec w} :
    test (word :: words) (w + i) = test words i := by
  simp [test, Nat.add_div_left i hw]

@[simp] theorem length_add : (add words i).length = words.length := by
  simp [add]

/-- **What is in the set after a number is added.** -/
theorem test_add (hi : i < w * words.length) :
    test (add words i) j = (test words j || decide (j = i)) := by
  have hw : 0 < w := Nat.pos_of_mul_pos_right (Nat.zero_lt_of_lt hi)
  have hdiv : i / w < words.length := Nat.div_lt_of_lt_mul hi
  by_cases hword : i / w = j / w
  · -- the word that changes
    have hbit : j = i ↔ j % w = i % w := by
      refine ⟨fun h => by rw [h], fun h => ?_⟩
      rw [← Nat.div_add_mod j w, ← Nat.div_add_mod i w, h, hword]
    have hget : words[j / w]? = some words[j / w] := List.getElem?_eq_getElem (hword ▸ hdiv)
    have hlt := Nat.mod_lt j hw
    simp only [test, add, List.getElem?_modify, hword, hget, if_pos, Option.map_eq_map,
      Option.map_some, Option.getD_some, BitVec.getLsbD_or, BitVec.getLsbD_shiftLeft,
      BitVec.getLsbD_one, hbit]
    congr 1
    rw [decide_eq_true hlt, Bool.true_and, Bool.and_comm]
    by_cases heq : j % w = i % w
    · simp [heq, hw]
    · rw [decide_eq_false heq]
      by_cases hle : j % w < i % w
      · simp [hle]
      · have : j % w - i % w ≠ 0 := by omega
        simp [this]
  · have hne : j ≠ i := fun h => hword (by rw [h])
    simp [test, add, List.getElem?_modify_ne _ _ hword, hne]

/-! ### The first member -/

theorem takeFirst_eq_none (hw : 0 < w) : takeFirst words = none ↔ ∀ i, test words i = false := by
  induction words with
  | nil => simp [takeFirst, test]
  | cons word words ih =>
      rw [takeFirst]
      by_cases hzero : word = 0
      · rw [if_pos hzero, Option.map_eq_none_iff, ih]
        constructor
        · intro h i
          rcases Nat.lt_or_ge i w with hi | hi
          · simp [test_cons_of_lt hi, hzero]
          · obtain ⟨k, rfl⟩ := Nat.exists_eq_add_of_le hi
            rw [test_cons_add hw]
            exact h k
        · intro h i
          rw [← @test_cons_add w words i hw word]
          exact h (w + i)
      · rw [if_neg hzero]
        simp only [reduceCtorEq, false_iff]
        intro h
        have hctz := BitVec.getLsbD_true_ctz_of_ne_zero hzero
        have hlt : word.ctz.toNat < w := by
          by_contra hge
          rw [BitVec.getLsbD_of_ge _ _ (Nat.le_of_not_lt hge)] at hctz
          cases hctz
        rw [← @test_cons_of_lt w words _ word hlt, h] at hctz
        cases hctz

/-- **What `takeFirst` takes and leaves.** -/
theorem takeFirst_eq_some (h : takeFirst words = some (i, words')) :
    test words i = true ∧ words'.length = words.length ∧
      ∀ j, test words' j = (test words j && decide (j ≠ i)) := by
  induction words generalizing i words' with
  | nil => cases h
  | cons word words ih =>
      rw [takeFirst] at h
      by_cases hzero : word = 0
      · rw [if_pos hzero] at h
        obtain ⟨⟨k, rest⟩, hrest, heq⟩ := Option.map_eq_some_iff.mp h
        cases heq
        obtain ⟨htest, hlength, hothers⟩ := ih hrest
        have hw : 0 < w := Nat.pos_of_mul_pos_right (Nat.zero_lt_of_lt (lt_of_test htest))
        refine ⟨by rwa [test_cons_add hw], by simp [hlength], fun j => ?_⟩
        rcases Nat.lt_or_ge j w with hj | hj
        · simp [test_cons_of_lt hj, hzero]
        · obtain ⟨m, rfl⟩ := Nat.exists_eq_add_of_le hj
          rw [test_cons_add hw, test_cons_add hw, hothers]
          simp
      · rw [if_neg hzero] at h
        obtain ⟨rfl, rfl⟩ := Prod.mk.inj (Option.some.inj h)
        have hctz := BitVec.getLsbD_true_ctz_of_ne_zero hzero
        have hlt : word.ctz.toNat < w := by
          by_contra hge
          rw [BitVec.getLsbD_of_ge _ _ (Nat.le_of_not_lt hge)] at hctz
          cases hctz
        refine ⟨by rwa [test_cons_of_lt hlt], by simp, fun j => ?_⟩
        rcases Nat.lt_or_ge j w with hj | hj
        · rw [test_cons_of_lt hj, test_cons_of_lt hj]
          simp only [BitVec.getLsbD_and, BitVec.getLsbD_not, BitVec.getLsbD_shiftLeft,
            BitVec.getLsbD_one, hj, decide_true, Bool.true_and]
          congr 1
          by_cases heq : j = word.ctz.toNat
          · simp [heq, Nat.zero_lt_of_lt hlt]
          · by_cases hle : j < word.ctz.toNat
            · simp [hle, heq]
            · have : j - word.ctz.toNat ≠ 0 := by omega
              simp [this, heq]
        · obtain ⟨m, rfl⟩ := Nat.exists_eq_add_of_le hj
          have hne : w + m ≠ word.ctz.toNat := by omega
          rw [test_cons_add (Nat.zero_lt_of_lt hlt), test_cons_add (Nat.zero_lt_of_lt hlt)]
          simp [hne]

/-! ### The number of members -/

theorem count_eq_card :
    count words = ((Finset.range (w * words.length)).filter fun i => test words i = true).card :=
  Nat.count_eq_card_filter_range _ _

theorem count_eq_zero : count words = 0 ↔ ∀ i, test words i = false := by
  rw [count_eq_card, Finset.card_eq_zero, Finset.filter_eq_empty_iff]
  constructor
  · intro h i
    by_contra hne
    have htest := Bool.of_not_eq_false hne
    exact h (Finset.mem_range.mpr (lt_of_test htest)) htest
  · intro h i _
    simp [h i]

/-- Two sets that differ in one number. -/
theorem count_of_insert (hlength : words'.length = words.length) (hi : test words i = true)
    (h : ∀ j, test words' j = (test words j && decide (j ≠ i))) :
    count words = count words' + 1 := by
  have hmem : i ∉ (Finset.range (w * words'.length)).filter fun i => test words' i = true := by
    simp [h]
  rw [count_eq_card, count_eq_card, ← Finset.card_insert_of_notMem hmem]
  congr 1
  ext j
  simp only [Finset.mem_filter, Finset.mem_range, Finset.mem_insert, h, Bool.and_eq_true,
    decide_eq_true_eq, hlength]
  constructor
  · rintro ⟨hlt, hj⟩
    exact (eq_or_ne j i).imp id fun hne => ⟨hlt, hj, hne⟩
  · rintro (rfl | ⟨hlt, hj, _⟩)
    · exact ⟨lt_of_test hi, hi⟩
    · exact ⟨hlt, hj⟩

theorem count_takeFirst (h : takeFirst words = some (i, words')) :
    count words = count words' + 1 := by
  obtain ⟨htest, hlength, hothers⟩ := takeFirst_eq_some h
  exact count_of_insert hlength htest hothers

theorem count_add (hi : i < w * words.length) (hout : test words i = false) :
    count (add words i) = count words + 1 := by
  refine count_of_insert (i := i) length_add.symm (by simp [test_add hi]) fun j => ?_
  rw [test_add hi]
  by_cases hj : j = i
  · simp [hj, hout]
  · simp [hj]

theorem exists_takeFirst (hw : 0 < w) (h : 0 < count words) : ∃ i words',
    takeFirst words = some (i, words') := by
  cases htake : takeFirst words with
  | none => rw [count_eq_zero.mpr ((takeFirst_eq_none hw).mp htake)] at h; cases h
  | some found => exact ⟨found.1, found.2, rfl⟩

end Bitmap

end BreadLang
