import BreadLang.Library.Shifting
import BreadLang.Runtime.Conservation

/-!
# Arrays as lists

What the operations on an array do to the array itself, with the loops that shift its
elements, against the list of values that an array stands for.  A value is taken as it
is; what becomes of the counts of its object is the subject of `Conservation`.

`step_simulates` is the step lemma: an array with room for one more element takes the
step of its list, and stops the process where the list has no such position.
`heap_step` says that the operations on the heap do the same to the array in it.
-/

namespace BreadLang

open Shifting RefCount

/-! ### The operations -/

namespace ArrayBody

/-- A loop that stays inside the buffer. -/
def inBuffer (buffer : Option (List HeapValue)) : Exec (List HeapValue) :=
  match buffer with
  | some items => .ok items
  | none => .error (.undefined .outOfBounds)

/-- The elements with the slot behind the last one, whose contents nobody reads. -/
def withFreeSlot (a : ArrayBody) : Exec (List HeapValue) :=
  if a.count < a.capacity then .ok (a.items ++ [.nil]) else .error (.undefined .outOfBounds)

/-- `bread_array_append`. -/
def append (a : ArrayBody) (v : HeapValue) : Exec (ArrayBody × Bool) :=
  if a.mismatch v then .ok (a, false)
  else do
    let a ← (a.adoptType v).growIfFull
    let buffer ← a.withFreeSlot
    return ({ a with items := buffer.set a.items.length v }, true)

/-- `bread_array_set`. -/
def set (a : ArrayBody) (idx : ℤ) (v : HeapValue) : ArrayBody × Bool :=
  if idx < 0 ∨ a.count ≤ idx then (a, false)
  else if a.mismatch v then (a, false)
  else (a.setItem idx.toNat v, true)

/-- `bread_array_get_safe`, with the element for the pointer to it. -/
def getSafe (a : ArrayBody) (index : ℤ) : Exec HeapValue :=
  let index := a.resolve index
  if index < 0 then .error (.abort (a.indexError index "Array"))
  else
    match a.items[index.toNat]? with
    | none => .error (.abort (a.indexError index "Array"))
    | some v => .ok v

/-- `bread_array_set_safe`. -/
def setSafe (a : ArrayBody) (index : ℤ) (v : HeapValue) :
    Exec (ArrayBody × Except BreadError Unit) :=
  let index := a.resolve index
  if index < 0 ∨ a.count ≤ index then .error (.abort (a.indexError index "Array"))
  else if a.mismatch v then .ok (a, .error (a.typeError v "assign" "to"))
  else .ok (a.setItem index.toNat v, .ok ())

/-- `bread_array_insert`. -/
def insert (a : ArrayBody) (v : HeapValue) (index : ℤ) :
    Exec (ArrayBody × Except BreadError Unit) :=
  let index := a.resolve index
  if index < 0 ∨ a.count < index then .error (.abort (a.indexError index "Insert"))
  else if a.mismatch v then .ok (a, .error (a.typeError v "insert" "into"))
  else do
    let a ← (a.adoptType v).growIfFull
    let buffer ← a.withFreeSlot
    let buffer ← inBuffer (shiftUp index.toNat a.items.length buffer)
    return ({ a with items := buffer.set index.toNat v }, .ok ())

/-- `bread_array_remove_at`. -/
def removeAt (a : ArrayBody) (index : ℤ) : Exec (HeapValue × ArrayBody) :=
  let index := a.resolve index
  if index < 0 then .error (.abort (a.indexError index "Remove"))
  else
    match a.items[index.toNat]? with
    | none => .error (.abort (a.indexError index "Remove"))
    | some v => do
        let last := a.items.length - 1
        let buffer ← inBuffer (shiftDown (last - index.toNat) index.toNat a.items)
        return (v, { a with items := buffer.take last })

end ArrayBody

/-- A call of one of the operations. -/
inductive ArrayOp where
  | append (v : HeapValue)
  | insert (v : HeapValue) (index : ℤ)
  | set (idx : ℤ) (v : HeapValue)
  | setSafe (index : ℤ) (v : HeapValue)
  | removeAt (index : ℤ)
  | getSafe (index : ℤ)
  | length

/-- What a call returns. -/
inductive ArrayReply where
  | accepted
  | rejected
  | value (v : HeapValue)
  | length (n : ℤ)
  deriving DecidableEq

namespace ArrayReply

/-- The reply of a function that returns 1 or 0. -/
def ofBool : Bool → ArrayReply
  | true => .accepted
  | false => .rejected

/-- The reply of a function that records an error before it returns 0. -/
def ofError : Except BreadError Unit → ArrayReply
  | .ok _ => .accepted
  | .error _ => .rejected

end ArrayReply

/-- One call on an array. -/
def ArrayBody.step (a : ArrayBody) : ArrayOp → Exec (ArrayBody × ArrayReply)
  | .append v => (fun result => (result.1, .ofBool result.2)) <$> a.append v
  | .insert v index => (fun result => (result.1, .ofError result.2)) <$> a.insert v index
  | .set idx v => .ok ((a.set idx v).1, .ofBool (a.set idx v).2)
  | .setSafe index v => (fun result => (result.1, .ofError result.2)) <$> a.setSafe index v
  | .removeAt index => (fun result => (result.2, .value result.1)) <$> a.removeAt index
  | .getSafe index => (fun v => (a, .value v)) <$> a.getSafe index
  | .length => .ok (a, .length a.count)

/-! ### Lists with an element type -/

/-- A list of values and the type that its elements are to have, which is nil as long as
none has been settled. -/
structure TypedList where
  items : List HeapValue
  elementType : VarType
  deriving DecidableEq

namespace TypedList

/-- A value may become an element. -/
def accepts (l : TypedList) (v : HeapValue) : Bool :=
  l.elementType == .typeNil || l.elementType == v.type

/-- The list settles for the type of its first element. -/
def settle (l : TypedList) (v : HeapValue) : TypedList :=
  if l.elementType = .typeNil ∧ l.items = [] then { l with elementType := v.type } else l

/-- The position below a bound that an index means: `i` itself, or `count + i` for a
negative one. -/
def position (l : TypedList) (bound : ℕ) (index : ℤ) : Option ℕ :=
  let i := if 0 ≤ index then index else l.items.length + index
  if 0 ≤ i ∧ i < bound then some i.toNat else none

/-- What a call means for the list.  An index without a position ends the process, but
for `set`, which rejects it. -/
def step (l : TypedList) : ArrayOp → Except Unit (TypedList × ArrayReply)
  | .append v =>
      if l.accepts v then
        .ok ({ l.settle v with items := l.items ++ [v] }, .accepted)
      else .ok (l, .rejected)
  | .insert v index =>
      match l.position (l.items.length + 1) index with
      | none => .error ()
      | some i =>
          if l.accepts v then
            .ok ({ l.settle v with items := l.items.insertIdx i v }, .accepted)
          else .ok (l, .rejected)
  | .set idx v =>
      if 0 ≤ idx ∧ idx < l.items.length ∧ l.accepts v then
        .ok ({ l with items := l.items.set idx.toNat v }, .accepted)
      else .ok (l, .rejected)
  | .setSafe index v =>
      match l.position l.items.length index with
      | none => .error ()
      | some i =>
          if l.accepts v then .ok ({ l with items := l.items.set i v }, .accepted)
          else .ok (l, .rejected)
  | .removeAt index =>
      match l.position l.items.length index with
      | none => .error ()
      | some i => .ok ({ l with items := l.items.eraseIdx i }, .value (l.items.getD i .nil))
  | .getSafe index =>
      match l.position l.items.length index with
      | none => .error ()
      | some i => .ok (l, .value (l.items.getD i .nil))
  | .length => .ok (l, .length l.items.length)

/-- A call that is rejected changes nothing. -/
theorem step_rejected {l l' : TypedList} {op : ArrayOp}
    (hstep : l.step op = .ok (l', .rejected)) : l' = l := by
  cases op <;> grind [step]

end TypedList

/-! ### One step -/

namespace ArrayBody

/-- The list that an array stands for. -/
def view (a : ArrayBody) : TypedList where
  items := a.items
  elementType := a.elementType

/-- The elements lie inside the buffer. -/
def Fits (a : ArrayBody) : Prop :=
  a.count ≤ a.capacity

/-- The buffer is full, and twice its capacity is not an `int`. -/
def AtLimit (a : ArrayBody) : Prop :=
  a.capacity ≤ a.count ∧ 2 ^ 30 ≤ a.capacity

/-- The call stores one more element. -/
def Stores (a : ArrayBody) : ArrayOp → Prop
  | .append v => a.mismatch v = false
  | .insert v index => a.mismatch v = false ∧ 0 ≤ a.resolve index ∧ a.resolve index ≤ a.count
  | _ => False

/-- A call that stores one more element finds or makes room for it. -/
def Roomy (a : ArrayBody) (op : ArrayOp) : Prop :=
  a.Stores op → ¬ a.AtLimit

instance (a : ArrayBody) (op : ArrayOp) : Decidable (a.Roomy op) := by
  unfold Roomy AtLimit Stores
  cases op <;> infer_instance

/-- The error of an index that is out of range. -/
def IsIndexError : Stop → Prop
  | .abort e => e.type = .indexOutOfBounds
  | .undefined _ => False

/-- An array and its list. -/
def Represents (a : ArrayBody) (l : TypedList) : Prop :=
  a.Fits ∧ a.view = l

section Steps

variable {a : ArrayBody} {v : HeapValue}

theorem mismatch_eq_false : a.mismatch v = false ↔ a.view.accepts v = true := by
  simp only [mismatch, TypedList.accepts, view, Bool.and_eq_false_iff, bne_eq_false_iff_eq,
    Bool.or_eq_true, beq_iff_eq]

theorem mismatch_eq_true : a.mismatch v = true ↔ ¬ a.view.accepts v = true := by
  rw [← mismatch_eq_false, Bool.not_eq_false]

theorem view_adoptType (a : ArrayBody) (v : HeapValue) :
    (a.adoptType v).view = a.view.settle v := by
  have hcount : a.count = 0 ↔ a.items = [] := by
    rw [count, Int.natCast_eq_zero, List.length_eq_zero_iff]
  have htype : (a.adoptType v).elementType =
      if a.elementType = .typeNil ∧ a.items = [] then v.type else a.elementType := by
    simp only [adoptType, hcount]
  rw [TypedList.settle]
  by_cases hsettles : a.elementType = .typeNil ∧ a.items = []
  · rw [view, htype, if_pos hsettles]
    exact (if_pos (show a.view.elementType = .typeNil ∧ a.view.items = [] from hsettles)).symm
  · rw [view, htype, if_neg hsettles]
    exact (if_neg (show ¬ (a.view.elementType = .typeNil ∧ a.view.items = []) from hsettles)).symm

/-- **Growth** gives a free slot. -/
theorem growIfFull_spec (hfits : a.Fits) (hroom : ¬ a.AtLimit) :
    ∃ c, a.growIfFull = .ok { a with capacity := c } ∧ a.count < c := by
  unfold Fits at hfits
  unfold AtLimit at hroom
  have hcount : 0 ≤ a.count := Int.natCast_nonneg _
  by_cases hfull : a.capacity ≤ a.count
  · have hcapacity : a.capacity < 2 ^ 30 := by
      by_contra hge
      exact hroom ⟨hfull, Int.not_lt.mp hge⟩
    by_cases hzero : a.capacity = 0
    · refine ⟨8, ?_, by omega⟩
      rw [growIfFull, if_pos hfull, grownCapacity, if_pos hzero]
      rfl
    · refine ⟨a.capacity * 2, ?_, by omega⟩
      have hmem : intMin ≤ a.capacity * 2 ∧ a.capacity * 2 ≤ intMax := by
        rw [intMin, intMax]
        omega
      rw [growIfFull, if_pos hfull, grownCapacity, if_neg hzero, checkedInt_of_mem hmem]
      rfl
  · exact ⟨a.capacity, by rw [growIfFull, if_neg hfull], Int.not_le.mp hfull⟩

theorem withFreeSlot_eq {c : ℤ} (hlt : a.count < c) :
    withFreeSlot { a with capacity := c } = .ok (a.items ++ [.nil]) :=
  if_pos hlt

/-- **`bread_array_append`** of a value that may become an element. -/
theorem append_spec (hfits : a.Fits) (haccepts : a.view.accepts v = true)
    (hroom : ¬ a.AtLimit) :
    ∃ a', a.append v = .ok (a', true) ∧
      a'.Represents { a.view.settle v with items := a.items ++ [v] } := by
  obtain ⟨c, hgrow, hlt⟩ := growIfFull_spec (a := a.adoptType v) hfits hroom
  refine ⟨{ a.adoptType v with capacity := c, items := a.items ++ [v] }, ?_, ?_, ?_⟩
  · rw [append, if_neg (by rw [mismatch_eq_false.mpr haccepts]; decide), hgrow]
    refine bind_eq_ok.mpr ⟨_, rfl, bind_eq_ok.mpr ⟨_, withFreeSlot_eq hlt, ?_⟩⟩
    rw [show (a.adoptType v).items = a.items from rfl,
      List.set_append_right _ _ (Nat.le_refl _), Nat.sub_self, List.set_cons_zero]
    rfl
  · have hlt' : (a.items.length : ℤ) < c := hlt
    simp only [Fits, count, List.length_append, List.length_singleton]
    omega
  · rw [← view_adoptType]
    rfl

/-- **`bread_array_insert`** in front of an element or behind the last one. -/
theorem insert_spec {index : ℤ} (hfits : a.Fits) (haccepts : a.view.accepts v = true)
    (hroom : ¬ a.AtLimit) (hindex : 0 ≤ a.resolve index ∧ a.resolve index ≤ a.count) :
    ∃ a', a.insert v index = .ok (a', .ok ()) ∧ a'.Represents
      { a.view.settle v with items := a.items.insertIdx (a.resolve index).toNat v } := by
  obtain ⟨c, hgrow, hlt⟩ := growIfFull_spec (a := a.adoptType v) hfits hroom
  have hle : (a.resolve index).toNat ≤ a.items.length := Int.toNat_le.mpr hindex.2
  obtain ⟨buffer, hshift, hset⟩ := shiftUp_set .nil v hle
  refine ⟨{ a.adoptType v with
    capacity := c, items := a.items.insertIdx (a.resolve index).toNat v }, ?_, ?_, ?_⟩
  · unfold insert
    dsimp only
    rw [if_neg (by omega), if_neg (by rw [mismatch_eq_false.mpr haccepts]; decide), hgrow]
    refine bind_eq_ok.mpr ⟨_, rfl, bind_eq_ok.mpr ⟨_, withFreeSlot_eq hlt, ?_⟩⟩
    rw [show (a.adoptType v).items = a.items from rfl, hshift, ← hset]
    rfl
  · have hlt' : (a.items.length : ℤ) < c := hlt
    simp only [Fits, count, List.length_insertIdx_of_le_length hle]
    omega
  · rw [← view_adoptType]
    rfl

/-- **`bread_array_remove_at`** of an element. -/
theorem removeAt_spec {index : ℤ} (hfits : a.Fits) (hindex : 0 ≤ a.resolve index)
    (hlt : (a.resolve index).toNat < a.items.length) :
    ∃ a', a.removeAt index = .ok (a.items.getD (a.resolve index).toNat .nil, a') ∧
      a'.Represents { a.view with items := a.items.eraseIdx (a.resolve index).toNat } := by
  obtain ⟨buffer, hshift, htake⟩ := shiftDown_take hlt
  refine ⟨{ a with items := a.items.eraseIdx (a.resolve index).toNat }, ?_, ?_, rfl⟩
  · unfold removeAt
    dsimp only
    rw [if_neg (Int.not_lt.mpr hindex), List.getElem?_eq_getElem hlt]
    dsimp only
    rw [hshift, List.getD_eq_getElem?_getD, List.getElem?_eq_getElem hlt, ← htake]
    rfl
  · have hcount : (a.items.length : ℤ) ≤ a.capacity := hfits
    simp only [Fits, count, List.length_eraseIdx_of_lt hlt]
    omega

theorem position_eq (a : ArrayBody) (bound : ℕ) (index : ℤ) :
    a.view.position bound index =
      if 0 ≤ a.resolve index ∧ a.resolve index < bound then some (a.resolve index).toNat
      else none := by
  have hresolve : a.resolve index = if 0 ≤ index then index else a.count + index := by
    rw [resolve]
    split <;> split <;> omega
  rw [hresolve]
  rfl

theorem position_of_mem (bound : ℕ) {index : ℤ}
    (hin : 0 ≤ a.resolve index ∧ a.resolve index < bound) :
    a.view.position bound index = some (a.resolve index).toNat := by
  rw [position_eq, if_pos hin]

theorem position_of_not_mem (bound : ℕ) {index : ℤ}
    (hout : ¬ (0 ≤ a.resolve index ∧ a.resolve index < bound)) :
    a.view.position bound index = none := by
  rw [position_eq, if_neg hout]

/-- An index is out of range when the look-up of `bread_array_get_safe` fails. -/
theorem getElem?_of_not_mem {index : ℤ}
    (hout : ¬ (0 ≤ a.resolve index ∧ a.resolve index < a.items.length))
    (hpos : ¬ a.resolve index < 0) : a.items[(a.resolve index).toNat]? = none := by
  refine List.getElem?_eq_none ?_
  omega

/-! ### The operations and the list -/

theorem append_simulates (hfits : a.Fits) (hroom : a.Roomy (.append v)) :
    Run.Simulates Represents IsIndexError (a.step (.append v)) (a.view.step (.append v)) := by
  rw [step, TypedList.step]
  by_cases haccepts : a.view.accepts v = true
  · obtain ⟨a', hrun, hrel⟩ := append_spec hfits haccepts (hroom (mismatch_eq_false.mpr haccepts))
    rw [hrun, if_pos haccepts]
    exact .ok _ hrel
  · rw [append, if_pos (mismatch_eq_true.mpr haccepts), if_neg haccepts]
    exact .ok _ ⟨hfits, rfl⟩

theorem insert_simulates {index : ℤ} (hfits : a.Fits) (hroom : a.Roomy (.insert v index)) :
    Run.Simulates Represents IsIndexError (a.step (.insert v index))
      (a.view.step (.insert v index)) := by
  rw [step, TypedList.step]
  by_cases hindex : a.resolve index < 0 ∨ a.count < a.resolve index
  · rw [position_of_not_mem (a.view.items.length + 1) fun h => hindex.elim (by omega) fun hlt =>
      Int.not_le.mpr hlt (Int.le_of_lt_add_one h.2)]
    unfold insert
    dsimp only
    rw [if_pos hindex]
    exact .error _ rfl
  · have hin : 0 ≤ a.resolve index ∧ a.resolve index ≤ a.count := by omega
    rw [position_of_mem (a.view.items.length + 1) ⟨hin.1, Int.lt_add_one_of_le hin.2⟩]
    dsimp only
    by_cases haccepts : a.view.accepts v = true
    · obtain ⟨a', hrun, hrel⟩ :=
        insert_spec hfits haccepts (hroom ⟨mismatch_eq_false.mpr haccepts, hin⟩) hin
      rw [hrun, if_pos haccepts]
      exact .ok _ hrel
    · unfold insert
      dsimp only
      rw [if_neg hindex, if_pos (mismatch_eq_true.mpr haccepts), if_neg haccepts]
      exact .ok _ ⟨hfits, rfl⟩

theorem represents_setItem (hfits : a.Fits) (i : ℕ) :
    (a.setItem i v).Represents { a.view with items := a.items.set i v } :=
  ⟨by rwa [Fits, count, setItem, List.length_set], rfl⟩

theorem set_simulates {idx : ℤ} (hfits : a.Fits) :
    Run.Simulates Represents IsIndexError (a.step (.set idx v)) (a.view.step (.set idx v)) := by
  rw [step, TypedList.step, set]
  by_cases hindex : idx < 0 ∨ a.count ≤ idx
  · have hout : ¬ (0 ≤ idx ∧ idx < a.view.items.length ∧ a.view.accepts v = true) := by
      rintro ⟨h₀, hlt, -⟩
      exact hindex.elim (by omega) fun hle => Int.not_lt.mpr hle hlt
    rw [if_pos hindex, if_neg hout]
    exact .ok _ ⟨hfits, rfl⟩
  · rw [if_neg hindex]
    by_cases haccepts : a.view.accepts v = true
    · have hin : 0 ≤ idx ∧ idx < a.view.items.length := by
        simp only [count] at hindex
        simp only [view]
        omega
      rw [if_neg (by rw [mismatch_eq_false.mpr haccepts]; decide),
        if_pos ⟨hin.1, hin.2, haccepts⟩]
      exact .ok _ (represents_setItem hfits _)
    · rw [if_pos (mismatch_eq_true.mpr haccepts), if_neg fun h => haccepts h.2.2]
      exact .ok _ ⟨hfits, rfl⟩

theorem setSafe_simulates {index : ℤ} (hfits : a.Fits) :
    Run.Simulates Represents IsIndexError (a.step (.setSafe index v))
      (a.view.step (.setSafe index v)) := by
  rw [step, TypedList.step]
  unfold setSafe
  dsimp only
  by_cases hindex : a.resolve index < 0 ∨ a.count ≤ a.resolve index
  · rw [if_pos hindex, position_of_not_mem a.view.items.length fun h => hindex.elim (by omega)
      fun hle => Int.not_lt.mpr hle h.2]
    exact .error _ rfl
  · have hin : 0 ≤ a.resolve index ∧ a.resolve index < a.count := by omega
    rw [if_neg hindex, position_of_mem a.view.items.length hin]
    dsimp only
    by_cases haccepts : a.view.accepts v = true
    · rw [if_neg (by rw [mismatch_eq_false.mpr haccepts]; decide), if_pos haccepts]
      exact .ok _ (represents_setItem hfits _)
    · rw [if_pos (mismatch_eq_true.mpr haccepts), if_neg haccepts]
      exact .ok _ ⟨hfits, rfl⟩

theorem removeAt_simulates {index : ℤ} (hfits : a.Fits) :
    Run.Simulates Represents IsIndexError (a.step (.removeAt index))
      (a.view.step (.removeAt index)) := by
  rw [step, TypedList.step]
  by_cases hin : 0 ≤ a.resolve index ∧ a.resolve index < a.items.length
  · obtain ⟨a', hrun, hrel⟩ := removeAt_spec hfits hin.1 ((Int.toNat_lt hin.1).mpr hin.2)
    rw [hrun, position_of_mem a.view.items.length hin]
    exact .ok _ hrel
  · rw [position_of_not_mem a.view.items.length hin]
    unfold removeAt
    dsimp only
    by_cases hneg : a.resolve index < 0
    · rw [if_pos hneg]
      exact .error _ rfl
    · rw [if_neg hneg, getElem?_of_not_mem hin hneg]
      exact .error _ rfl

theorem getSafe_simulates {index : ℤ} (hfits : a.Fits) :
    Run.Simulates Represents IsIndexError (a.step (.getSafe index))
      (a.view.step (.getSafe index)) := by
  rw [step, TypedList.step]
  unfold getSafe
  dsimp only
  by_cases hin : 0 ≤ a.resolve index ∧ a.resolve index < a.items.length
  · have hlt : (a.resolve index).toNat < a.items.length := (Int.toNat_lt hin.1).mpr hin.2
    have hget : a.view.items.getD (a.resolve index).toNat .nil =
        a.items[(a.resolve index).toNat] := by
      rw [view, List.getD_eq_getElem?_getD, List.getElem?_eq_getElem hlt, Option.getD_some]
    rw [if_neg (Int.not_lt.mpr hin.1), List.getElem?_eq_getElem hlt, position_of_mem a.view.items.length hin]
    dsimp only
    rw [hget]
    exact .ok _ ⟨hfits, rfl⟩
  · rw [position_of_not_mem a.view.items.length hin]
    by_cases hneg : a.resolve index < 0
    · rw [if_pos hneg]
      exact .error _ rfl
    · rw [if_neg hneg, getElem?_of_not_mem hin hneg]
      exact .error _ rfl

/-- **One call**: an array that is not at its limit takes the step of its list. -/
theorem step_simulates {l : TypedList} (hrepresents : a.Represents l) (op : ArrayOp)
    (hroom : a.Roomy op) :
    Run.Simulates Represents IsIndexError (a.step op) (l.step op) := by
  obtain ⟨hfits, rfl⟩ := hrepresents
  cases op with
  | append v => exact append_simulates hfits hroom
  | insert v index => exact insert_simulates hfits hroom
  | set idx v => exact set_simulates hfits
  | setSafe index v => exact setSafe_simulates hfits
  | removeAt index => exact removeAt_simulates hfits
  | getSafe index => exact getSafe_simulates hfits
  | length => exact .ok _ ⟨hfits, rfl⟩

end Steps

/-! ### Whole runs -/

/-- **Every run is a run of the list**, from an empty array on: it gives the same replies
and leaves the elements and the element type of the list, or it stops at the same call
because of the index.  No call may grow an array past what an `int` can count. -/
theorem run_is_list_run (capacity : ℤ) (elementType : VarType) (ops : List ArrayOp)
    (hcapacity : 0 ≤ capacity)
    (hroom : Run.Guarded step Roomy (new capacity elementType) ops) :
    Run.Simulates Represents IsIndexError (Run.run step (new capacity elementType) ops)
      (Run.run TypedList.step ⟨[], elementType⟩ ops) :=
  Run.run_simulates Represents IsIndexError ops
    (fun _ _ op hrepresents hnow => step_simulates hrepresents op hnow) _ _
    ⟨hcapacity, rfl⟩ hroom

/-- Negative and positive positions, an insertion in the middle and a rejected value. -/
def sampleOps : List ArrayOp :=
  [.append (.int 1), .append (.int 2), .insert (.int 3) (-1), .removeAt (-3),
    .setSafe (-1) (.int 4), .set 0 (.bool true), .getSafe 0, .length]

theorem sample_is_list_run : Run.Simulates Represents IsIndexError
    (Run.run step (new 0 .typeNil) sampleOps) (Run.run TypedList.step ⟨[], .typeNil⟩ sampleOps) :=
  run_is_list_run 0 .typeNil sampleOps le_rfl (by decide +kernel)

/-! ### An array that is full -/

/-- Whether the capacity is zero or a power of two below `INT_MAX`, as it is after growth
from zero on. -/
def PowerOfTwo (a : ArrayBody) : Prop :=
  a.capacity = 0 ∨ ∃ k ≤ 30, a.capacity = ((2 ^ k : ℕ) : ℤ)

theorem powerOfTwo_append {a : ArrayBody} {v : HeapValue} (ha : a.PowerOfTwo) :
    Gives (a.append v) fun result => result.1.PowerOfTwo := by
  unfold append
  split
  · exact gives_ok ha
  have hgrow : Gives (a.adoptType v).growIfFull PowerOfTwo := by
    unfold growIfFull
    split
    · unfold grownCapacity
      by_cases hzero : (a.adoptType v).capacity = 0
      · rw [if_pos hzero]
        exact gives_pure (.inr ⟨3, by decide, rfl⟩)
      · rw [if_neg hzero]
        obtain hnone | ⟨k, -, hk⟩ := ha
        · exact absurd hnone hzero
        refine gives_bind (P := fun c => c = a.capacity * 2 ∧ c ≤ intMax) ?_ ?_
        · intro c hc
          rw [checkedInt] at hc
          split at hc
          · rename_i hmem
            cases hc
            exact ⟨rfl, hmem.2⟩
          · cases hc
        · rintro _ ⟨rfl, hmax⟩
          have hlt : 2 ^ (k + 1) < 2 ^ 31 := by
            rw [hk, intMax] at hmax
            rw [Nat.pow_succ]
            omega
          have hle : k + 1 ≤ 30 := Nat.le_of_lt_succ ((Nat.pow_lt_pow_iff_right (by decide)).mp hlt)
          refine gives_pure (.inr ⟨k + 1, hle, ?_⟩)
          rw [hk, Nat.pow_succ]
          push_cast
          rfl
    · exact gives_ok ha
  refine gives_bind hgrow fun a' ha' => ?_
  exact gives_bind_any fun buffer => gives_pure ha'

/-- An array that has grown to `2 ^ 30` elements is full. -/
theorem capacity_of_length {a : ArrayBody} (ha : a.PowerOfTwo) (hfits : a.Fits)
    (hlength : a.items.length = 2 ^ 30) : a.capacity = 2 ^ 30 := by
  have hle : ((2 ^ 30 : ℕ) : ℤ) ≤ a.capacity := by
    rw [Fits, count, hlength] at hfits
    exact hfits
  rcases ha with hzero | ⟨k, hk, hcapacity⟩
  · rw [hzero] at hle
    exact absurd hle (by decide)
  · rw [hcapacity] at hle ⊢
    have hpow : 2 ^ 30 ≤ 2 ^ k := Int.ofNat_le.mp hle
    obtain rfl : k = 30 := Nat.le_antisymm hk ((Nat.pow_le_pow_iff_right (by decide)).mp hpow)
    rfl

/-- Appending integers until there are `2 ^ 30` of them.  The induction is on the number
of calls that are left. -/
theorem run_appends (n : ℕ) {a : ArrayBody} (hfits : a.Fits) (ha : a.PowerOfTwo)
    (htype : a.elementType = .typeInt) (hlength : a.items.length + n = 2 ^ 30) :
    ∃ a' rs, Run.run step a (List.replicate n (.append (.int 0))) = .ok (a', rs) ∧
      a'.elementType = .typeInt ∧ a'.items.length = 2 ^ 30 ∧ a'.capacity = 2 ^ 30 := by
  induction n generalizing a with
  | zero => exact ⟨a, [], rfl, htype, hlength, capacity_of_length ha hfits hlength⟩
  | succ n ih =>
      have haccepts : a.view.accepts (.int 0) = true := by
        simp [TypedList.accepts, view, htype, HeapValue.type]
      have hroom : ¬ a.AtLimit := by
        rintro ⟨hfull, hlimit⟩
        have hcount : a.count = a.items.length := rfl
        omega
      obtain ⟨a', hrun, hfits', hview⟩ := append_spec hfits haccepts hroom
      have hsettle : a.view.settle (.int 0) = a.view := by
        rw [TypedList.settle, if_neg]
        rintro ⟨hnil, -⟩
        rw [view, htype] at hnil
        cases hnil
      rw [hsettle] at hview
      have htype' : a'.elementType = .typeInt := (congrArg TypedList.elementType hview).trans htype
      have hitems : a'.items = a.items ++ [.int 0] := congrArg TypedList.items hview
      have hlength' : a'.items.length + n = 2 ^ 30 := by
        rw [hitems, List.length_append, List.length_singleton]
        omega
      obtain ⟨a'', rs, hrest, hend⟩ :=
        ih hfits' (powerOfTwo_append ha _ hrun) htype' hlength'
      refine ⟨a'', .accepted :: rs, ?_, hend⟩
      rw [List.replicate_succ, Run.run, step, hrun]
      simp only [Functor.map, hrest, Except.map, ArrayReply.ofBool]

/-- **The capacity overflows**: one more element than `2 ^ 30` and the run leaves the
list. -/
theorem one_too_many : ¬ Run.Simulates Represents IsIndexError
    (Run.run step (new 0 .typeInt) (List.replicate (2 ^ 30 + 1) (.append (.int 0))))
    (Run.run TypedList.step ⟨[], .typeInt⟩ (List.replicate (2 ^ 30 + 1) (.append (.int 0)))) := by
  obtain ⟨a, rs, hrun, htype, hlength, hcapacity⟩ := run_appends (2 ^ 30) (a := new 0 .typeInt)
    le_rfl (.inl rfl) rfl (Nat.zero_add _)
  have hlast : a.step (.append (.int 0)) = .error (.undefined .signedOverflow) := by
    have hmismatch : a.mismatch (.int 0) = false := by
      simp [mismatch, htype, HeapValue.type]
    have hfull : (a.adoptType (.int 0)).capacity ≤ (a.adoptType (.int 0)).count := by
      show a.capacity ≤ a.count
      rw [hcapacity, count, hlength]
      decide
    have hgrow : (a.adoptType (.int 0)).growIfFull = .error (.undefined .signedOverflow) := by
      have hcap : (a.adoptType (.int 0)).capacity = 2 ^ 30 := hcapacity
      rw [growIfFull, if_pos hfull, grownCapacity, hcap]
      rfl
    rw [step, append, hmismatch, hgrow]
    rfl
  intro hsimulates
  generalize Run.run TypedList.step _ _ = outcome at hsimulates
  rw [List.replicate_succ', Run.run_append _ _ hrun, Run.run, hlast] at hsimulates
  cases hsimulates with
  | error _ hindex => exact hindex

/-- Growth that does not fail has room for one more element, so has a call that is completed. -/
theorem roomy_of_step {a : ArrayBody} (op : ArrayOp) : Gives (a.step op) fun _ => a.Roomy op := by
  intro result hstep hstores hlimit
  have hgrow (v : HeapValue) :
      (a.adoptType v).growIfFull = .error (.undefined .signedOverflow) := by
    obtain ⟨hfull, hcapacity⟩ := hlimit
    have hfull' : (a.adoptType v).capacity ≤ (a.adoptType v).count := hfull
    have hzero : ¬ a.capacity = 0 := by omega
    have hover : ¬ (intMin ≤ a.capacity * 2 ∧ a.capacity * 2 ≤ intMax) := by
      rw [intMax]
      omega
    have hgrown : (a.adoptType v).grownCapacity = .error (.undefined .signedOverflow) :=
      (if_neg hzero).trans (if_neg hover)
    rw [growIfFull, if_pos hfull', hgrown]
    rfl
  cases op with
  | append v =>
      have hmismatch : a.mismatch v = false := hstores
      rw [step, append, hmismatch, hgrow] at hstep
      cases hstep
  | insert v index =>
      obtain ⟨hmismatch, hzero, hle⟩ := hstores
      have hin : ¬ (a.resolve index < 0 ∨ a.count < a.resolve index) := by omega
      rw [step, insert, if_neg hin, hmismatch, hgrow] at hstep
      cases hstep
  | set | setSafe | removeAt | getSafe | length => exact hstores

end ArrayBody

/-! ### The array in the heap -/

namespace ObjectHeap

variable {h : ObjectHeap} {r : Ref} {a : ArrayBody} {v : HeapValue}

/-- One call on the array at an address. -/
def arrayStep (h : ObjectHeap) (r : Ref) : ArrayOp → Exec (ObjectHeap × ArrayReply)
  | .append v => do
      let (h, appended) ← h.arrayAppend (some r) v
      return (h, .ofBool appended)
  | .insert v index => do
      let (h, result) ← h.arrayInsert (some r) v index
      return (h, .ofError result)
  | .set idx v => do
      let (h, stored) ← h.arraySet (some r) idx v
      return (h, .ofBool stored)
  | .setSafe index v => do
      let (h, result) ← h.arraySetSafe (some r) index v
      return (h, .ofError result)
  | .removeAt index => do
      let (v, h) ← h.arrayRemoveAt (some r) index
      return (h, .value v)
  | .getSafe index => do
      let a ← h.getArray r
      return (h, .value (← a.getSafe index))
  | .length => do
      let a ← h.getArray r
      return (h, .length a.count)

theorem write_body (b : ObjectBody) : Gives (h.write r b) fun h' => h'.body r = some b := by
  unfold write
  split
  · exact gives_ok (by simp [Heap.setBody])
  · exact gives_error

theorem getArray_eq (hbody : h.body r = some (.array a)) : h.getArray r = .ok a := by
  rw [getArray, hbody]

/-- Growth leaves the elements and gives a free slot. -/
theorem growIfFull_gives (hfits : a.Fits) :
    Gives a.growIfFull fun a' => a'.items = a.items ∧ a'.count < a'.capacity ∧
      a'.elementType = a.elementType := by
  have hcount : 0 ≤ a.count := Int.natCast_nonneg _
  unfold ArrayBody.Fits at hfits
  unfold ArrayBody.growIfFull ArrayBody.grownCapacity checkedInt
  by_cases hfull : a.capacity ≤ a.count
  · rw [if_pos hfull]
    by_cases hzero : a.capacity = 0
    · rw [if_pos hzero]
      refine gives_pure ⟨rfl, ?_, rfl⟩
      show a.count < 8
      omega
    · rw [if_neg hzero]
      split
      · refine gives_pure ⟨rfl, ?_, rfl⟩
        show a.count < a.capacity * 2
        omega
      · exact gives_error
  · rw [if_neg hfull]
    exact gives_ok ⟨rfl, Int.not_le.mp hfull, rfl⟩

/-- A call on the heap has done what the call on the array alone does. -/
def Agrees (r : Ref) {β : Type} (x : Exec (ArrayBody × β)) (result : ObjectHeap × β) : Prop :=
  ∃ a, x = .ok (a, result.2) ∧ result.1.body r = some (.array a)

theorem arrayAppend_agrees (hbody : h.body r = some (.array a)) (hfits : a.Fits)
    (v : HeapValue) : Gives (h.arrayAppend (some r) v) (Agrees r (a.append v)) := by
  rw [arrayAppend, ArrayBody.append, getArray_eq hbody]
  refine gives_bind (P := fun found => a = found) (gives_ok rfl) ?_
  rintro _ rfl
  split
  · exact gives_pure ⟨_, rfl, hbody⟩
  · refine gives_bind (P := fun a' => (_ : Exec ArrayBody) = .ok a' ∧ _)
      (fun a' hgrow => ⟨hgrow, growIfFull_gives (a := a.adoptType v) hfits a' hgrow⟩) ?_
    rintro a' ⟨hgrow, -, hfree, -⟩
    refine gives_bind_any fun h₁ => gives_bind (write_body _) fun h₂ hbody₂ => ?_
    refine gives_pure ⟨_, ?_, hbody₂⟩
    rw [hgrow]
    refine bind_eq_ok.mpr ⟨_, rfl, bind_eq_ok.mpr ⟨_, if_pos hfree, ?_⟩⟩
    rw [List.set_append_right _ _ (Nat.le_refl _), Nat.sub_self, List.set_cons_zero]
    rfl

theorem arrayInsert_agrees (hbody : h.body r = some (.array a)) (hfits : a.Fits)
    (v : HeapValue) (index : ℤ) :
    Gives (h.arrayInsert (some r) v index) (Agrees r (a.insert v index)) := by
  rw [arrayInsert, ArrayBody.insert, getArray_eq hbody]
  refine gives_bind (P := fun found => a = found) (gives_ok rfl) ?_
  rintro _ rfl
  dsimp only
  split
  · exact gives_error
  rename_i hindex
  split
  · exact gives_pure ⟨_, rfl, hbody⟩
  · refine gives_bind (P := fun a' => (_ : Exec ArrayBody) = .ok a' ∧ _)
      (fun a' hgrow => ⟨hgrow, growIfFull_gives (a := a.adoptType v) hfits a' hgrow⟩) ?_
    rintro a' ⟨hgrow, hitems, hfree, -⟩
    refine gives_bind_any fun h₁ => gives_bind (write_body _) fun h₂ hbody₂ => ?_
    refine gives_pure ⟨_, ?_, hbody₂⟩
    have hle : (a.resolve index).toNat ≤ a'.items.length := by
      rw [hitems]
      refine Int.toNat_le.mpr ?_
      show a.resolve index ≤ a.count
      omega
    obtain ⟨buffer, hshift, hset⟩ := shiftUp_set .nil v hle
    rw [hgrow]
    refine bind_eq_ok.mpr ⟨_, rfl, bind_eq_ok.mpr ⟨_, if_pos hfree, ?_⟩⟩
    rw [hshift, ← hset]
    rfl

/-- The last write of an exchange of an element stays. -/
theorem setItem_body {i : ℕ} : Gives (h.setItem r a i v) fun h' =>
    h'.body r = some (.array (a.setItem i v)) := by
  unfold setItem
  split
  · exact gives_error
  · exact gives_bind_any fun h₁ => gives_bind_any fun h₂ => gives_bind_any fun h₃ => write_body _

theorem arraySet_agrees (hbody : h.body r = some (.array a)) (idx : ℤ) (v : HeapValue) :
    Gives (h.arraySet (some r) idx v) (Agrees r (.ok (a.set idx v))) := by
  rw [arraySet, ArrayBody.set, getArray_eq hbody]
  refine gives_bind (P := fun found => a = found) (gives_ok rfl) ?_
  rintro _ rfl
  split
  · exact gives_pure ⟨_, rfl, hbody⟩
  split
  · exact gives_pure ⟨_, rfl, hbody⟩
  · exact gives_bind setItem_body fun h' hbody' => gives_pure ⟨_, rfl, hbody'⟩

theorem arraySetSafe_agrees (hbody : h.body r = some (.array a)) (index : ℤ) (v : HeapValue) :
    Gives (h.arraySetSafe (some r) index v) (Agrees r (a.setSafe index v)) := by
  rw [arraySetSafe, ArrayBody.setSafe, getArray_eq hbody]
  refine gives_bind (P := fun found => a = found) (gives_ok rfl) ?_
  rintro _ rfl
  dsimp only
  split
  · exact gives_error
  split
  · exact gives_pure ⟨_, rfl, hbody⟩
  · exact gives_bind setItem_body fun h' hbody' => gives_pure ⟨_, rfl, hbody'⟩

theorem arrayRemoveAt_agrees (hbody : h.body r = some (.array a)) (index : ℤ) :
    Gives (h.arrayRemoveAt (some r) index) fun result => ∃ a',
      a.removeAt index = .ok (result.1, a') ∧ result.2.body r = some (.array a') := by
  rw [arrayRemoveAt, getArray_eq hbody]
  refine gives_bind (P := fun found => a = found) (gives_ok rfl) ?_
  rintro _ rfl
  dsimp only
  split
  · exact gives_error
  rename_i hneg
  split
  · exact gives_error
  · rename_i v hget
    refine gives_bind_any fun h₁ => gives_bind_any fun h₂ => gives_bind_any fun h₃ =>
      gives_bind (write_body _) fun h₄ hbody₄ => ?_
    obtain ⟨buffer, hshift, htake⟩ := shiftDown_take (List.getElem?_eq_some_iff.mp hget).1
    refine gives_pure ⟨_, ?_, hbody₄⟩
    rw [ArrayBody.removeAt, if_neg hneg, hget]
    dsimp only
    rw [hshift, ← htake]
    rfl

/-- **The levels agree**: a call on the heap does to the array what the call does to the
array alone, and returns the same. -/
theorem heap_step (hbody : h.body r = some (.array a)) (hfits : a.Fits) (op : ArrayOp) :
    Gives (h.arrayStep r op) (Agrees r (a.step op)) := by
  cases op with
  | append v =>
      refine gives_bind (arrayAppend_agrees hbody hfits v) ?_
      rintro ⟨h', appended⟩ ⟨a', hrun, hbody'⟩
      exact gives_pure ⟨a', by rw [ArrayBody.step, hrun]; rfl, hbody'⟩
  | insert v index =>
      refine gives_bind (arrayInsert_agrees hbody hfits v index) ?_
      rintro ⟨h', result⟩ ⟨a', hrun, hbody'⟩
      exact gives_pure ⟨a', by rw [ArrayBody.step, hrun]; rfl, hbody'⟩
  | set idx v =>
      refine gives_bind (arraySet_agrees hbody idx v) ?_
      rintro ⟨h', stored⟩ ⟨a', hrun, hbody'⟩
      exact gives_pure ⟨a', by rw [ArrayBody.step, Except.ok.inj hrun], hbody'⟩
  | setSafe index v =>
      refine gives_bind (arraySetSafe_agrees hbody index v) ?_
      rintro ⟨h', result⟩ ⟨a', hrun, hbody'⟩
      exact gives_pure ⟨a', by rw [ArrayBody.step, hrun]; rfl, hbody'⟩
  | removeAt index =>
      refine gives_bind (arrayRemoveAt_agrees hbody index) ?_
      rintro ⟨v, h'⟩ ⟨a', hrun, hbody'⟩
      exact gives_pure ⟨a', by rw [ArrayBody.step, hrun]; rfl, hbody'⟩
  | getSafe index =>
      rw [arrayStep, getArray_eq hbody]
      refine gives_bind (P := fun found => a = found) (gives_ok rfl) ?_
      rintro _ rfl
      refine gives_bind (P := fun v => a.getSafe index = .ok v) (fun v hrun => hrun) ?_
      intro v hrun
      exact gives_pure ⟨a, by rw [ArrayBody.step, hrun]; rfl, hbody⟩
  | length =>
      rw [arrayStep, getArray_eq hbody]
      exact gives_ok ⟨a, rfl, hbody⟩

/-- **A run of calls on the heap is a run of the list**: what the calls clone, release and free
besides does not touch the array, and a run that is completed has given the replies of the
list and leaves an array of its elements. -/
theorem heap_run_is_list_run {l : TypedList} (ops : List ArrayOp)
    (hbody : h.body r = some (.array a)) (hrepresents : a.Represents l) :
    Gives (Run.run (fun h op => h.arrayStep r op) h ops) fun result =>
      ∃ a' l', result.1.body r = some (.array a') ∧ a'.Represents l' ∧
        Run.run TypedList.step l ops = .ok (l', result.2) := by
  induction ops generalizing h a l with
  | nil =>
      rintro _ ⟨⟩
      exact ⟨a, l, hbody, hrepresents, rfl⟩
  | cons op ops ih =>
      rintro ⟨h', replies⟩ hrun
      obtain ⟨h₁, reply, rest, hstep, hlater, rfl⟩ := Run.run_cons_eq_ok hrun
      obtain ⟨a₁, hown, hbody₁⟩ := heap_step hbody hrepresents.1 op _ hstep
      -- the array and its list take the same step
      have hsimulates := ArrayBody.step_simulates hrepresents op (ArrayBody.roomy_of_step op _ hown)
      rw [hown] at hsimulates
      generalize hlist : l.step op = outcome at hsimulates
      cases hsimulates with
      | ok _ hrepresents₁ =>
          obtain ⟨a', l', hbody', hrepresents', hrest⟩ := ih hbody₁ hrepresents₁ _ hlater
          refine ⟨a', l', hbody', hrepresents', ?_⟩
          rw [Run.run, hlist]
          simp only [hrest]

/-- Two values, one between them, and one that is rejected. -/
def heapOps : List ArrayOp :=
  [.append (.int 1), .append (.int 2), .insert (.int 3) (-1), .append (.bool true), .getSafe (-2)]

theorem heapOps_is_list_run : ∃ h' replies,
    Run.run (fun h op => h.arrayStep 0 op) (arrayNew .empty 0 .typeNil).2 heapOps =
        .ok (h', replies) ∧
      ∃ a' l', h'.body 0 = some (.array a') ∧ a'.Represents l' ∧
        Run.run TypedList.step ⟨[], .typeNil⟩ heapOps = .ok (l', replies) := by
  have hrun : ∃ h' replies, Run.run (fun h op => h.arrayStep 0 op)
      (arrayNew .empty 0 .typeNil).2 heapOps = .ok (h', replies) :=
    ⟨_, _, rfl⟩
  obtain ⟨h', replies, hrun⟩ := hrun
  have hbody : (arrayNew .empty 0 .typeNil).2.body 0 = some (.array (.new 0 .typeNil)) := rfl
  exact ⟨h', replies, hrun, heap_run_is_list_run heapOps hbody ⟨le_rfl, rfl⟩ _ hrun⟩

end ObjectHeap

end BreadLang
