import Mathlib.Data.List.InsertIdx

/-!
# Shifting the elements of a buffer

The two loops with which an array makes room for an element and closes the gap of
one: the elements from a position on move up by one slot, the last one first, or
down by one slot, the first one first.  A copy reads and writes inside the buffer or
the loop fails.

`shiftUp_spec` and `shiftDown_spec` say that neither loop fails and what it leaves
in the buffer.
-/

namespace BreadLang
namespace Shifting

variable {α : Type}

/-- `buffer[dst] = buffer[src]`. -/
def copySlot (buffer : List α) (dst src : ℕ) : Option (List α) :=
  match buffer[src]? with
  | some x => if dst < buffer.length then some (buffer.set dst x) else none
  | none => none

/-- `for (i = last; i > index; i--) buffer[i] = buffer[i - 1]`, with `last` as the
number that is counted down. -/
def shiftUp (index : ℕ) : ℕ → List α → Option (List α)
  | 0, buffer => some buffer
  | i + 1, buffer =>
      if index < i + 1 then (copySlot buffer (i + 1) i).bind (shiftUp index i)
      else some buffer

/-- `for (i = index; i < index + n; i++) buffer[i] = buffer[i + 1]`. -/
def shiftDown : ℕ → ℕ → List α → Option (List α)
  | 0, _, buffer => some buffer
  | n + 1, i, buffer => (copySlot buffer i (i + 1)).bind (shiftDown n (i + 1))

/-! ### Moving up -/

/-- A buffer in which the elements of a list are spread around one slot. -/
def gap (l : List α) (i : ℕ) (x : α) : List α :=
  l.take i ++ x :: l.drop i

theorem gap_length {l : List α} {i : ℕ} {x : α} (hi : i ≤ l.length) :
    (gap l i x).length = l.length + 1 := by
  simp only [gap, List.length_append, List.length_take, List.length_cons, List.length_drop]
  omega

theorem gap_set {l : List α} {i : ℕ} {x : α} (hi : i ≤ l.length) (y : α) :
    (gap l i x).set i y = gap l i y := by
  have hlen : (l.take i).length = i := List.length_take_of_le hi
  rw [gap, List.set_append_right _ _ (Nat.le_of_eq hlen), hlen, Nat.sub_self, List.set_cons_zero, gap]

theorem gap_eq_insertIdx {l : List α} {i : ℕ} {x : α} (hi : i ≤ l.length) :
    gap l i x = l.insertIdx i x := by
  induction l generalizing i with
  | nil =>
      obtain rfl : i = 0 := Nat.le_zero.mp hi
      rfl
  | cons y l ih =>
      cases i with
      | zero => rfl
      | succ i =>
          rw [List.insertIdx_succ_cons, ← ih (Nat.le_of_succ_le_succ hi)]
          rfl

/-- Copying the element below the gap moves the gap down. -/
theorem copySlot_gap {l : List α} {i : ℕ} {x : α} (hi : i < l.length) :
    copySlot (gap l (i + 1) x) (i + 1) i = some (gap l i l[i]) := by
  have hread : (gap l (i + 1) x)[i]? = some l[i] := by
    have hlt : i < (l.take (i + 1)).length := by
      rw [List.length_take]
      omega
    rw [gap, List.getElem?_append_left hlt, List.getElem?_take_of_lt (Nat.lt_succ_self i),
      List.getElem?_eq_getElem hi]
  have hwrite : i + 1 < (gap l (i + 1) x).length := by
    rw [gap_length hi]
    omega
  rw [copySlot, hread]
  dsimp only
  rw [if_pos hwrite, gap_set hi, gap, gap, List.take_succ_eq_append_getElem hi,
    List.drop_eq_getElem_cons hi, List.append_assoc]
  rfl

/-- **The loop that makes room.**  The induction is on the slot that it copies to. -/
theorem shiftUp_spec {l : List α} {index : ℕ} (i : ℕ) (x : α) (hindex : index ≤ i)
    (hi : i ≤ l.length) : ∃ y, shiftUp index i (gap l i x) = some (gap l index y) := by
  induction i generalizing x with
  | zero =>
      obtain rfl : index = 0 := Nat.le_zero.mp hindex
      exact ⟨x, rfl⟩
  | succ i ih =>
      by_cases hlt : index < i + 1
      · obtain ⟨y, hy⟩ := ih l[i] (Nat.le_of_lt_succ hlt) (Nat.le_of_succ_le hi)
        refine ⟨y, ?_⟩
        rw [shiftUp, if_pos hlt, copySlot_gap hi]
        exact hy
      · obtain rfl : index = i + 1 := Nat.le_antisymm hindex (Nat.not_lt.mp hlt)
        exact ⟨x, by rw [shiftUp, if_neg hlt]⟩

/-- Making room in a buffer with one free slot and writing into the gap inserts. -/
theorem shiftUp_set {l : List α} {index : ℕ} (free x : α) (hindex : index ≤ l.length) :
    ∃ buffer, shiftUp index l.length (l ++ [free]) = some buffer ∧
      buffer.set index x = l.insertIdx index x := by
  have hstart : l ++ [free] = gap l l.length free := by
    rw [gap, List.take_length, List.drop_length]
  obtain ⟨y, hy⟩ := shiftUp_spec l.length free hindex (Nat.le_refl _)
  refine ⟨gap l index y, hstart ▸ hy, ?_⟩
  rw [gap_set hindex, gap_eq_insertIdx hindex]

/-! ### Moving down -/

/-- The buffer of a list whose elements between two slots have moved down. -/
def closing (l : List α) (index i : ℕ) : List α :=
  (l.eraseIdx index).take i ++ l.drop i

theorem closing_start (l : List α) (index : ℕ) : closing l index index = l := by
  rw [closing, List.take_eraseIdx_eq_take_of_le l index index (Nat.le_refl _), List.take_append_drop]

theorem copySlot_closing {l : List α} {index i : ℕ} (hindex : index ≤ i)
    (hi : i + 1 < l.length) :
    copySlot (closing l index i) i (i + 1) = some (closing l index (i + 1)) := by
  have hlen : ((l.eraseIdx index).take i).length = i := by
    rw [List.length_take, List.length_eraseIdx_of_lt (by omega)]
    omega
  have hget : (l.eraseIdx index)[i]? = some l[i + 1] := by
    rw [List.getElem?_eraseIdx_of_ge hindex, List.getElem?_eq_getElem hi]
  have hread : (closing l index i)[i + 1]? = some l[i + 1] := by
    rw [closing, List.getElem?_append_right (by omega), hlen, List.getElem?_drop,
      Nat.add_sub_cancel_left, List.getElem?_eq_getElem hi]
  have hwrite : i < (closing l index i).length := by
    rw [closing, List.length_append, hlen, List.length_drop]
    omega
  rw [copySlot, hread]
  dsimp only
  rw [if_pos hwrite, closing, List.set_append_right _ _ (Nat.le_of_eq hlen), hlen, Nat.sub_self,
    List.drop_eq_getElem_cons (Nat.lt_of_succ_lt hi), List.set_cons_zero, closing,
    List.take_add_one, hget, List.append_assoc]
  rfl

/-- **The loop that closes a gap.**  The induction is on the number of copies. -/
theorem shiftDown_spec {l : List α} {index : ℕ} (n i : ℕ) (hindex : index ≤ i)
    (hi : i + n < l.length) :
    shiftDown n i (closing l index i) = some (closing l index (i + n)) := by
  induction n generalizing i with
  | zero => rfl
  | succ n ih =>
      rw [shiftDown, copySlot_closing hindex (by omega), Option.bind_some,
        ih (i + 1) (by omega) (by omega), Nat.succ_add_eq_add_succ]

/-- Closing the gap and giving up the last slot erases. -/
theorem shiftDown_take {l : List α} {index : ℕ} (hindex : index < l.length) :
    ∃ buffer, shiftDown (l.length - 1 - index) index l = some buffer ∧
      buffer.take (l.length - 1) = l.eraseIdx index := by
  have hrun := shiftDown_spec (l := l) (l.length - 1 - index) index (Nat.le_refl _) (by omega)
  rw [closing_start] at hrun
  refine ⟨_, hrun, ?_⟩
  have hlen : (l.eraseIdx index).length = l.length - 1 := List.length_eraseIdx_of_lt hindex
  have hend : index + (l.length - 1 - index) = l.length - 1 := by omega
  have htake : (l.eraseIdx index).take (l.length - 1) = l.eraseIdx index := by
    rw [← hlen, List.take_length]
  rw [hend, closing, htake, ← hlen, List.take_left]

end Shifting
end BreadLang
