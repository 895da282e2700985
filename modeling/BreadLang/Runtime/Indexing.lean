import BreadLang.Runtime.ArrayList
import BreadLang.Runtime.RangeCreate
import BreadLang.Runtime.Stores

/-!
# Indexing

`bread_index_op` and `bread_index_set_op` with the functions of `operators.c` that they
call.  An index is an `Int`, of 64 bits; the functions convert it to `int` before they
normalise a negative one and compare it with the length.

## Main results

* `indexed_iff`: reads and stores reach the position that an index denotes, and fail where
  there is none, unless the index has more than 32 bits and its low 32 denote a position.
-/

namespace BreadLang

open RefCount

/-! ### The operations -/

/-- What a function returns: 1, or 0 with the error that it has recorded, if any. -/
abbrev Status := Except (Option BreadError) Unit

/-- A return of 0 after `BREAD_ERROR_SET_TYPE_MISMATCH`. -/
def mismatchStatus (message : String) : Status :=
  .error (some ⟨.typeMismatch, message⟩)

/-- `BREAD_ERROR_SET_INDEX_OUT_OF_BOUNDS`, on which the process aborts. -/
def outOfBoundsError (what : String) (index length : ℤ) : BreadError where
  type := .indexOutOfBounds
  message := what ++ " index " ++ toString index ++ " out of bounds (length " ++
    toString length ++ ")"

/-- The message of a key that is not in a dictionary, in a buffer of 256 bytes. -/
def keyNotFoundMessage (key : BreadString) : String :=
  String.ofList (("Dictionary key '".toList ++ key ++ "' not found".toList).take 255)

/-- `int index = idx->value.int_val; if (index < 0) index += length;`. -/
def normalizeIndex (i length : ℤ) : Exec ℤ :=
  if toInt i < 0 then checkedInt (toInt i + length) else .ok (toInt i)

namespace ObjectHeap

/-- `bread_string_get_char`. -/
def stringGetChar (data : BreadString) (index : ℕ) : Exec Char :=
  match data[index]? with
  | some c => .ok c
  | none => .error (.abort
      { type := .indexOutOfBounds
        message := "String index " ++ toString index ++ " out of bounds (string length: " ++
          toString data.length ++ ")" })

/-- The case of a string in `bread_index_op`.  The length is converted to `int`, too. -/
def indexString (h : ObjectHeap) (s : Option Ref) (i : BreadInt) :
    Exec (HeapValue × ObjectHeap) := do
  let data ← h.stringContents s
  let length := toInt data.length
  let index ← normalizeIndex i.val length
  if index < 0 ∨ length ≤ index then
    .error (.abort (outOfBoundsError "String" i.val data.length))
  else
    let c ← stringGetChar data index.toNat
    let (r, h) := h.stringNew (cString [c])
    return (.string (some r), h)

/-- `bread_array_length` and `bread_array_get`, on the items of an array. -/
def arrayItems (h : ObjectHeap) : Option Ref → Exec (List HeapValue)
  | some r => do return (← h.getArray r).items
  | none => .ok []

/-- The case of an array in `bread_index_op`. -/
def indexArray (h : ObjectHeap) (a : Option Ref) (i : BreadInt) :
    Exec (HeapValue × ObjectHeap) := do
  let items ← h.arrayItems a
  let index ← normalizeIndex i.val items.length
  if index < 0 ∨ items.length ≤ index then
    .error (.abort (outOfBoundsError "Array" i.val items.length))
  else
    match items[index.toNat]? with
    | some v => return (v, ← h.valueClone v)
    | none => .error (nullError "Failed to retrieve array element")

/-- `bread_dict_get`, with the value for the pointer to it. -/
def dictGet (h : ObjectHeap) (d : Option Ref) (key : BreadString) : Exec (Option HeapValue) :=
  match d with
  | none => .ok none
  | some r => do
      let d ← h.getDict r
      match ← scan (h.holdsString key) 0 d.entries with
      | some slot => return some (← d.entryAt slot).value
      | none => return none

/-- The case of a dictionary in `bread_index_op`. -/
def indexDict (h : ObjectHeap) (d key : Option Ref) : Exec (HeapValue × ObjectHeap) := do
  let key ← h.stringContents key
  match ← h.dictGet d (cString key) with
  | some v => return (v, ← h.valueClone v)
  | none => .error (nullError (keyNotFoundMessage (cString key)))

/-- `bread_index_op` on a target that is no optional. -/
def indexUnwrapped (h : ObjectHeap) (target idx : HeapValue) :
    Exec (HeapValue × ObjectHeap × Status) :=
  match target, idx with
  | .string s, .int i => do
      let (v, h) ← h.indexString s i
      return (v, h, .ok ())
  | .string _, _ => .ok (.nil, h, mismatchStatus "String index must be Int")
  | .array a, .int i => do
      let (v, h) ← h.indexArray a i
      return (v, h, .ok ())
  | .array _, _ => .ok (.nil, h, mismatchStatus "Array index must be Int")
  | .dict d, .string key => do
      let (v, h) ← h.indexDict d key
      return (v, h, .ok ())
  | .dict _, _ => .ok (.nil, h, mismatchStatus "Dictionary key must be String")
  | _, _ => .error (nullError "Type does not support indexing")

/-- `bread_index_op`: the value in `out`, and the result.  An optional is unwrapped, and
none is nil. -/
def indexOp (h : ObjectHeap) (target idx : HeapValue) : Exec (HeapValue × ObjectHeap × Status) :=
  match target with
  | .optional none => .ok (.nil, h, .ok ())
  | .optional (some o) =>
      match h.body o with
      | some (.optional none) => .ok (.nil, h, .ok ())
      | some (.optional (some v)) => do
          let h ← h.valueClone v
          let (out, h, status) ← h.indexUnwrapped v idx
          return (out, ← h.valueRelease v, status)
      | _ => .error (.undefined .useAfterFree)
  | _ => h.indexUnwrapped target idx

/-- `bread_array_set_value`. -/
def arraySetValue (h : ObjectHeap) (a : Option Ref) (i : ℤ) (v : HeapValue) :
    Exec (ObjectHeap × Status) :=
  match a with
  | none => .error (nullError "Null pointer in array set")
  | some r => do
      let a ← h.getArray r
      let index ← normalizeIndex i a.count
      if index < 0 ∨ a.count ≤ index then
        .error (.abort (outOfBoundsError "Array" index a.count))
      else
        let (h, stored) ← h.arraySet (some r) index v
        return (h, if stored then .ok () else .error none)

/-- `bread_dict_set_value`. -/
def dictSetValue (h : ObjectHeap) (d : Option Ref) (key v : HeapValue) :
    Exec (ObjectHeap × Status) :=
  match d, key with
  | none, _ => .error (nullError "Null pointer in dict set")
  | some r, .string key => do
      let key ← h.stringContents key
      let (h, stored) ← h.dictSet r (cString key) v
      return (h, if stored then .ok () else .error none)
  | some _, _ => .ok (h, mismatchStatus "Dictionary keys must be strings")

/-- `bread_index_set_op`. -/
def indexSetOp (h : ObjectHeap) (target idx v : HeapValue) : Exec (ObjectHeap × Status) :=
  match target, idx with
  | .array a, .int i => h.arraySetValue a i.val v
  | .array _, _ => .ok (h, mismatchStatus "Array index must be Int")
  | .dict d, .string key => h.dictSetValue d (.string key) v
  | .dict _, _ => .ok (h, mismatchStatus "Dictionary key must be String")
  | _, _ => .error (nullError "Type does not support index assignment")

end ObjectHeap

/-! ### Positions -/

/-- An index denotes a position among so many. -/
def InBounds (n : ℕ) (i : ℤ) : Prop := -n ≤ i ∧ i < n

instance (n : ℕ) (i : ℤ) : Decidable (InBounds n i) :=
  inferInstanceAs (Decidable (-n ≤ i ∧ i < n))

/-- The position that an index denotes: `i` itself, or `n + i` for a negative one. -/
def position (n : ℕ) (i : ℤ) : ℕ := (if i < 0 then n + i else i).toNat

/-- The position is that of the index, not of its low 32 bits alone. -/
def ReachesPosition (n : ℕ) (i : ℤ) : Prop := InBounds n (toInt i) → InBounds n i

instance (n : ℕ) (i : ℤ) : Decidable (ReachesPosition n i) :=
  inferInstanceAs (Decidable (InBounds n (toInt i) → InBounds n i))

theorem position_lt {n : ℕ} {i : ℤ} (h : InBounds n i) : position n i < n := by
  rw [InBounds] at h
  rw [position]
  split <;> omega

/-- An index that denotes a position is an `int`. -/
theorem toInt_of_inBounds {n : ℕ} {i : ℤ} (hn : (n : ℤ) ≤ intMax) (h : InBounds n i) :
    toInt i = i := by
  rw [InBounds] at h
  rw [toInt_eq_self_iff, IsInt32, intMin]
  rw [intMax] at hn ⊢
  omega

/-- The normalised index, for a length that an `int` holds. -/
theorem normalizeIndex_eq {n : ℕ} (i : ℤ) (hn : (n : ℤ) ≤ intMax) :
    normalizeIndex i n = .ok (if toInt i < 0 then n + toInt i else toInt i) := by
  have hint := isInt32_toInt i
  rw [IsInt32] at hint
  rw [normalizeIndex]
  split
  · rw [checkedInt_of_mem (by rw [intMin] at hint ⊢; omega), Int.add_comm]
  · rfl

/-- The check of the bounds. -/
theorem inBounds_iff {n : ℕ} (i : ℤ) :
    ((if i < 0 then n + i else i) < 0 ∨ n ≤ (if i < 0 then (n : ℤ) + i else i)) ↔
      ¬ InBounds n i := by
  rw [InBounds]
  split <;> omega

/-! ### Reading an element -/

section Arrays

variable {h h' : ObjectHeap} {owed : List Ref} {r : Ref} {a : ArrayBody} {v : HeapValue}
  {i j : BreadInt}

/-- No count is at its limit. -/
def Retainable (h : ObjectHeap) : Prop := ∀ x, h.count x < 0xFFFFFFFF

theorem Countable.retainable (h₀ : Countable h) : Retainable h := by
  intro x
  have hx := h₀ x
  omega

theorem indexOp_array (hbody : h.body r = some (.array a))
    (hn : (a.items.length : ℤ) ≤ intMax) :
    h.indexOp (.array (some r)) (.int i) =
      if InBounds a.items.length (toInt i.val) then
        match a.items[position a.items.length (toInt i.val)]? with
        | some v => (fun h => (v, h, .ok ())) <$> h.valueClone v
        | none => .error (nullError "Failed to retrieve array element")
      else .error (.abort (outOfBoundsError "Array" i.val a.items.length)) := by
  have harray : h.indexArray (some r) i =
      if InBounds a.items.length (toInt i.val) then
        match a.items[position a.items.length (toInt i.val)]? with
        | some v => (fun h => (v, h)) <$> h.valueClone v
        | none => .error (nullError "Failed to retrieve array element")
      else .error (.abort (outOfBoundsError "Array" i.val a.items.length)) := by
    rw [ObjectHeap.indexArray, ObjectHeap.arrayItems, ObjectHeap.getArray_eq hbody]
    show (normalizeIndex i.val a.items.length >>= _) = _
    rw [normalizeIndex_eq _ hn]
    by_cases hin : InBounds a.items.length (toInt i.val)
    · rw [if_pos hin]
      refine (if_neg (mt (inBounds_iff _).mp (not_not.mpr hin))).trans ?_
      rw [position]
      split <;> rfl
    · rw [if_neg hin]
      exact if_pos ((inBounds_iff _).mpr hin)
  show (h.indexArray (some r) i >>= _) = _
  rw [harray]
  split
  · split
    · rename_i v _
      cases h.valueClone v <;> rfl
    · rfl
  · rfl

/-- What an index with these low 32 bits reads. -/
theorem indexOp_returns (hb : Balanced ∅ h owed) (hroom : Retainable h)
    (hbody : h.body r = some (.array a)) (hn : (a.items.length : ℤ) ≤ intMax)
    (hin : InBounds a.items.length (toInt i.val)) :
    ∃ v h', a.items[position a.items.length (toInt i.val)]? = some v ∧
      h.indexOp (.array (some r)) (.int i) = .ok (v, h', .ok ()) := by
  have hlt := position_lt hin
  have hv := List.getElem?_eq_getElem hlt
  have halive : ∀ x ∈ (a.items[position a.items.length (toInt i.val)]).refs, h.count x ≠ 0 := by
    intro x hx
    have hholds : h.Holds ObjectBody.children r x := by
      refine holds_iff.mpr ⟨_, hbody, ?_⟩
      rw [children_array]
      exact List.mem_flatMap.mpr ⟨_, List.getElem_mem hlt, hx⟩
    have hpos := hb.ledger.incoming_pos hholds
    have hcounted := hb.ledger.counted x
    omega
  obtain ⟨h', hclone, -⟩ := valueClone_returns hb halive fun x _ => hroom x
  refine ⟨_, h', hv, ?_⟩
  rw [indexOp_array hbody hn, if_pos hin, hv]
  show _ <$> h.valueClone _ = _
  rw [hclone]
  rfl

theorem indexOp_aborts (hbody : h.body r = some (.array a))
    (hn : (a.items.length : ℤ) ≤ intMax) (hout : ¬ InBounds a.items.length (toInt i.val)) :
    h.indexOp (.array (some r)) (.int i) =
      .error (.abort (outOfBoundsError "Array" i.val a.items.length)) := by
  rw [indexOp_array hbody hn, if_neg hout]

/-- **Reading an element** of the given items: the one that the index denotes, or the error
of an index that is out of bounds. -/
def ReadsElement (h : ObjectHeap) (r : Ref) (items : List HeapValue) (i : BreadInt) : Prop :=
  if InBounds items.length i.val then
    ∃ v h', items[position items.length i.val]? = some v ∧
      h.indexOp (.array (some r)) (.int i) = .ok (v, h', .ok ())
  else ∃ e, h.indexOp (.array (some r)) (.int i) = .error (.abort e) ∧
    e.type = .indexOutOfBounds

theorem readsElement_iff (hb : Balanced ∅ h owed) (hroom : Retainable h)
    (hbody : h.body r = some (.array a)) (hn : (a.items.length : ℤ) ≤ intMax) :
    ReadsElement h r a.items i ↔ ReachesPosition a.items.length i.val := by
  rw [ReadsElement]
  by_cases hin : InBounds a.items.length i.val
  · rw [if_pos hin]
    have hsame := toInt_of_inBounds hn hin
    have hread := indexOp_returns hb hroom hbody hn (hsame.symm ▸ hin)
    rw [hsame] at hread
    exact iff_of_true hread fun _ => hin
  · rw [if_neg hin]
    by_cases hlow : InBounds a.items.length (toInt i.val)
    · obtain ⟨v, h', -, hread⟩ := indexOp_returns hb hroom hbody hn hlow
      refine iff_of_false ?_ fun hreaches => hin (hreaches hlow)
      rintro ⟨e, herror, -⟩
      rw [hread] at herror
      cases herror
    · exact iff_of_true ⟨_, indexOp_aborts hbody hn hlow, rfl⟩ fun h => absurd h hlow

/-! ### Storing an element -/

/-- What the caller refers to is held. -/
theorem heldWithout_of_mem {x : Ref} (hx : x ∈ owed) (old : HeapValue) :
    HeldWithout h owed r old x := by
  refine ⟨{x}, rfl, fun y hy => .inl ?_⟩
  obtain rfl : y = x := hy
  exact (List.count_pos_iff.mpr hx).ne'

/-- A replacement by a caller that refers to the object and to the value. -/
theorem replaceElement_returns (make : List HeapValue → ObjectBody) {vs : List HeapValue} {k : ℕ}
    {old : HeapValue} (hb : Balanced ∅ h owed) (hroom : Countable h)
    (hmake : ∀ vs, ¬ (make vs).IsString ∧ (make vs).children = valueRefs vs)
    (hbody : h.body r = some (make vs)) (hold : vs[k]? = some old) (hr : r ∈ owed)
    (hv : ∀ x ∈ v.refs, x ∈ owed) :
    ∃ h', h.replaceValue r (make (vs.set k .nil)) old v (make (vs.set k v)) = .ok h' ∧
      h'.body r = some (make (vs.set k v)) ∧ Balanced ∅ h' owed ∧ Retainable h' := by
  have hreplaces := replaces_element make hb hmake hbody hold v
  obtain ⟨h', hreplace, hresult⟩ := hreplaces.result hroom (heldWithout_of_mem hr _)
    fun x hx => heldWithout_of_mem (hv x hx) _
  refine ⟨h', hreplace, hresult.body, hresult.balanced, fun x => ?_⟩
  have hcount := Replaces.Result.count_eq hreplaces hresult x
  have hle := count_refs_le v x
  have hx := hroom x
  omega

/-- A store by a caller that refers to the array and to the value. -/
theorem arraySet_returns {index : ℤ} (hb : Balanced ∅ h owed) (hroom : Countable h)
    (hbody : h.body r = some (.array a)) (hr : r ∈ owed) (hv : ∀ x ∈ v.refs, x ∈ owed)
    (hmatch : a.mismatch v = false) (hindex : 0 ≤ index ∧ index < a.count) :
    ∃ h', h.arraySet (some r) index v = .ok (h', true) ∧
      h'.body r = some (.array (a.setItem index.toNat v)) ∧ Balanced ∅ h' owed ∧
        Retainable h' := by
  have hlt : index.toNat < a.items.length := by
    rw [ArrayBody.count] at hindex
    omega
  have hold := List.getElem?_eq_getElem hlt
  obtain ⟨h', hreplace, hresult⟩ := replaceElement_returns
    (fun vs => .array { a with items := vs }) hb hroom (fun _ => ⟨id, rfl⟩) hbody hold hr hv
  refine ⟨h', ?_, hresult⟩
  have hset : h.setItem r a index.toNat v = .ok h' := by
    rw [ObjectHeap.setItem, hold]
    exact hreplace
  rw [ObjectHeap.arraySet, ObjectHeap.getArray_eq hbody]
  show (if index < 0 ∨ a.count ≤ index then _ else _) = _
  rw [if_neg (by omega), hmatch, if_neg Bool.false_ne_true, hset]
  rfl

theorem indexSetOp_array (hbody : h.body r = some (.array a))
    (hn : (a.items.length : ℤ) ≤ intMax) :
    h.indexSetOp (.array (some r)) (.int i) v =
      if InBounds a.items.length (toInt i.val) then do
        let (h, stored) ← h.arraySet (some r) (position a.items.length (toInt i.val)) v
        return (h, if stored then .ok () else .error none)
      else .error (.abort (outOfBoundsError "Array"
        (if toInt i.val < 0 then a.items.length + toInt i.val else toInt i.val)
        a.items.length)) := by
  show (h.getArray r >>= _) = _
  rw [ObjectHeap.getArray_eq hbody]
  show (normalizeIndex i.val a.items.length >>= _) = _
  rw [normalizeIndex_eq _ hn]
  by_cases hin : InBounds a.items.length (toInt i.val)
  · rw [if_pos hin]
    refine (if_neg (mt (inBounds_iff _).mp (not_not.mpr hin))).trans ?_
    have hposition : ((position a.items.length (toInt i.val) : ℕ) : ℤ) =
        if toInt i.val < 0 then a.items.length + toInt i.val else toInt i.val := by
      rw [InBounds] at hin
      rw [position]
      split <;> omega
    rw [hposition]
  · rw [if_neg hin]
    exact if_pos ((inBounds_iff _).mpr hin)

/-- **Storing an element**: at the position that the index denotes, or the error of an index
that is out of bounds. -/
def StoresElement (h : ObjectHeap) (r : Ref) (a : ArrayBody) (i : BreadInt) (v : HeapValue) :
    Prop :=
  if InBounds a.items.length i.val then
    ∃ h', h.indexSetOp (.array (some r)) (.int i) v = .ok (h', .ok ()) ∧
      h'.body r = some (.array (a.setItem (position a.items.length i.val) v))
  else ∃ e, h.indexSetOp (.array (some r)) (.int i) v = .error (.abort e) ∧
    e.type = .indexOutOfBounds

/-- **Reading after storing**: the value where both indices denote one position, and the old
element elsewhere. -/
def ReadsStored (h : ObjectHeap) (r : Ref) (a : ArrayBody) (i j : BreadInt) (v : HeapValue) :
    Prop :=
  ∀ h', h.indexSetOp (.array (some r)) (.int i) v = .ok (h', .ok ()) →
    ReadsElement h' r (a.items.set (position a.items.length i.val) v) j

/-- A store with these low 32 bits. -/
theorem indexSetOp_returns (hb : Balanced ∅ h owed) (hroom : Countable h)
    (hbody : h.body r = some (.array a)) (hn : (a.items.length : ℤ) ≤ intMax)
    (hr : r ∈ owed) (hv : ∀ x ∈ v.refs, x ∈ owed) (hmatch : a.mismatch v = false)
    (hin : InBounds a.items.length (toInt i.val)) :
    ∃ h', h.indexSetOp (.array (some r)) (.int i) v = .ok (h', .ok ()) ∧
      h'.body r = some (.array (a.setItem (position a.items.length (toInt i.val)) v)) ∧
        Balanced ∅ h' owed ∧ Retainable h' := by
  have hlt := position_lt hin
  have hindex : 0 ≤ ((position a.items.length (toInt i.val) : ℕ) : ℤ) ∧
      ((position a.items.length (toInt i.val) : ℕ) : ℤ) < a.count := by
    rw [ArrayBody.count]
    omega
  obtain ⟨h', hset, hbody', hrest⟩ := arraySet_returns hb hroom hbody hr hv hmatch hindex
  refine ⟨h', ?_, ?_, hrest⟩
  · rw [indexSetOp_array hbody hn, if_pos hin, hset]
    rfl
  · rwa [Int.toNat_natCast] at hbody'

theorem storesElement_iff (hb : Balanced ∅ h owed) (hroom : Countable h)
    (hbody : h.body r = some (.array a)) (hn : (a.items.length : ℤ) ≤ intMax)
    (hr : r ∈ owed) (hv : ∀ x ∈ v.refs, x ∈ owed) (hmatch : a.mismatch v = false) :
    StoresElement h r a i v ↔ ReachesPosition a.items.length i.val := by
  rw [StoresElement]
  by_cases hin : InBounds a.items.length i.val
  · rw [if_pos hin]
    have hsame := toInt_of_inBounds hn hin
    obtain ⟨h', hset, hbody', -⟩ :=
      indexSetOp_returns hb hroom hbody hn hr hv hmatch (hsame.symm ▸ hin)
    rw [hsame] at hbody'
    exact iff_of_true ⟨h', hset, hbody'⟩ fun _ => hin
  · rw [if_neg hin]
    by_cases hlow : InBounds a.items.length (toInt i.val)
    · obtain ⟨h', hset, -⟩ := indexSetOp_returns hb hroom hbody hn hr hv hmatch hlow
      refine iff_of_false ?_ fun hreaches => hin (hreaches hlow)
      rintro ⟨e, herror, -⟩
      rw [hset] at herror
      cases herror
    · have herror := @indexSetOp_array h r a v i hbody hn
      rw [if_neg hlow] at herror
      exact iff_of_true ⟨_, herror, rfl⟩ fun h => absurd h hlow

theorem readsStored_iff (hb : Balanced ∅ h owed) (hroom : Countable h)
    (hbody : h.body r = some (.array a)) (hn : (a.items.length : ℤ) ≤ intMax)
    (hr : r ∈ owed) (hv : ∀ x ∈ v.refs, x ∈ owed) (hmatch : a.mismatch v = false)
    (hi : ReachesPosition a.items.length i.val) :
    ReadsStored h r a i j v ↔
      (InBounds a.items.length i.val → ReachesPosition a.items.length j.val) := by
  have hsame : InBounds a.items.length (toInt i.val) → toInt i.val = i.val := fun hlow =>
    toInt_of_inBounds hn (hi hlow)
  by_cases hlow : InBounds a.items.length (toInt i.val)
  · obtain ⟨h', hset, hbody', hb', hroom'⟩ :=
      indexSetOp_returns hb hroom hbody hn hr hv hmatch hlow
    rw [hsame hlow] at hbody'
    have hlength : (a.setItem (position a.items.length i.val) v).items.length =
        a.items.length := List.length_set
    have hread := @readsElement_iff h' owed r _ j hb' hroom' hbody' (hlength.symm ▸ hn)
    rw [hlength] at hread
    refine ⟨fun hstored _ => hread.mp (hstored h' hset), fun hreaches h'' hset' => ?_⟩
    rw [hset] at hset'
    cases hset'
    exact hread.mpr (hreaches (hi hlow))
  · refine iff_of_true (fun h' hset => ?_) fun hin => absurd ?_ hlow
    · rw [indexSetOp_array hbody hn, if_neg hlow] at hset
      cases hset
    · rwa [toInt_of_inBounds hn hin]

end Arrays

/-! ### Reading a character -/

section Strings

variable {h : ObjectHeap} {s : Ref} {data : BreadString} {i : BreadInt}

theorem indexOp_string (hbody : h.body s = some (.string data))
    (hn : (data.length : ℤ) ≤ intMax) :
    h.indexOp (.string (some s)) (.int i) =
      if InBounds data.length (toInt i.val) then do
        let c ← ObjectHeap.stringGetChar data (position data.length (toInt i.val))
        return (.string (some h.size), (h.stringNew (cString [c])).2, .ok ())
      else .error (.abort (outOfBoundsError "String" i.val data.length)) := by
  have hlength : toInt (data.length : ℤ) = data.length := by
    rw [toInt_eq_self_iff, IsInt32, intMin]
    omega
  show (h.indexString (some s) i >>= _) = _
  rw [ObjectHeap.indexString, ObjectHeap.stringContents, ObjectHeap.stringAt, hbody]
  show ((normalizeIndex i.val (toInt data.length) >>= _) >>= _) = _
  rw [hlength, normalizeIndex_eq _ hn]
  by_cases hin : InBounds data.length (toInt i.val)
  · rw [if_pos hin]
    have hindex := mt (inBounds_iff _).mp (not_not.mpr hin)
    refine (congrArg (· >>= _) (if_neg hindex)).trans ?_
    rw [position]
    split <;> cases ObjectHeap.stringGetChar data _ <;> rfl
  · rw [if_neg hin]
    exact congrArg (· >>= _) (if_pos ((inBounds_iff _).mpr hin))

/-- **Reading a character**: a new string of the one that the index denotes, or the error of
an index that is out of bounds. -/
def ReadsCharacter (h : ObjectHeap) (s : Ref) (data : BreadString) (i : BreadInt) : Prop :=
  if InBounds data.length i.val then
    ∃ c h', data[position data.length i.val]? = some c ∧
      h.indexOp (.string (some s)) (.int i) = .ok (.string (some h.size), h', .ok ()) ∧
        h'.body h.size = some (.string (cString [c]))
  else ∃ e, h.indexOp (.string (some s)) (.int i) = .error (.abort e) ∧
    e.type = .indexOutOfBounds

/-- What an index with these low 32 bits reads. -/
theorem indexOp_string_returns (hbody : h.body s = some (.string data))
    (hn : (data.length : ℤ) ≤ intMax) (hin : InBounds data.length (toInt i.val)) :
    ∃ c, data[position data.length (toInt i.val)]? = some c ∧
      h.indexOp (.string (some s)) (.int i) =
        .ok (.string (some h.size), (h.stringNew (cString [c])).2, .ok ()) := by
  have hc := List.getElem?_eq_getElem (position_lt hin)
  refine ⟨_, hc, ?_⟩
  rw [indexOp_string hbody hn, if_pos hin, ObjectHeap.stringGetChar, hc]
  rfl

theorem readsCharacter_iff (hbody : h.body s = some (.string data))
    (hn : (data.length : ℤ) ≤ intMax) :
    ReadsCharacter h s data i ↔ ReachesPosition data.length i.val := by
  rw [ReadsCharacter]
  by_cases hin : InBounds data.length i.val
  · rw [if_pos hin]
    have hsame := toInt_of_inBounds hn hin
    obtain ⟨c, hc, hread⟩ := indexOp_string_returns hbody hn (hsame.symm ▸ hin)
    rw [hsame] at hc
    exact iff_of_true ⟨c, _, hc, hread, body_create h _⟩ fun _ => hin
  · rw [if_neg hin]
    by_cases hlow : InBounds data.length (toInt i.val)
    · obtain ⟨c, -, hread⟩ := indexOp_string_returns (h := h) hbody hn hlow
      refine iff_of_false ?_ fun hreaches => hin (hreaches hlow)
      rintro ⟨e, herror, -⟩
      rw [hread] at herror
      cases herror
    · have herror := @indexOp_string h s data i hbody hn
      rw [if_neg hlow] at herror
      exact iff_of_true ⟨_, herror, rfl⟩ fun h => absurd h hlow

end Strings

/-! ### Indexing -/

section Indexing

variable {h : ObjectHeap} {owed : List Ref} {r s : Ref} {a : ArrayBody} {data : BreadString}
  {v : HeapValue}

/-- **Indexing**: reads and stores reach the positions that the indices denote, and fail on
the others, unless the low 32 bits of an index denote a position. -/
theorem indexed_iff (i j : BreadInt) (hb : Balanced ∅ h owed) (hroom : Countable h)
    (hbody : h.body r = some (.array a)) (hn : (a.items.length : ℤ) ≤ intMax)
    (hr : r ∈ owed) (hv : ∀ x ∈ v.refs, x ∈ owed) (hmatch : a.mismatch v = false)
    (hstring : h.body s = some (.string data)) (hlength : (data.length : ℤ) ≤ intMax) :
    ((ReadsElement h r a.items i ∧ StoresElement h r a i v ∧ ReadsStored h r a i j v) ↔
        ReachesPosition a.items.length i.val ∧
          (InBounds a.items.length i.val → ReachesPosition a.items.length j.val)) ∧
      (ReadsCharacter h s data i ↔ ReachesPosition data.length i.val) := by
  refine ⟨⟨?_, ?_⟩, readsCharacter_iff hstring hlength⟩
  · rintro ⟨hread, -, hstored⟩
    have hi := (readsElement_iff hb hroom.retainable hbody hn).mp hread
    exact ⟨hi, (readsStored_iff hb hroom hbody hn hr hv hmatch hi).mp hstored⟩
  · rintro ⟨hi, hj⟩
    exact ⟨(readsElement_iff hb hroom.retainable hbody hn).mpr hi,
      (storesElement_iff hb hroom hbody hn hr hv hmatch).mpr hi,
      (readsStored_iff hb hroom hbody hn hr hv hmatch hi).mpr hj⟩

/-- A string, and an array of one integer. -/
def oneElement : ObjectHeap :=
  (ObjectHeap.create (ObjectHeap.create .empty (.string ['a'])).2
    (.array ⟨8, .typeInt, [.int 7]⟩)).2

theorem balanced_oneElement : Balanced ∅ oneElement [1, 0] := by
  have hempty : Balanced ∅ (.empty : ObjectHeap) [] :=
    ⟨Ledger.congr ledger_empty fun _ => List.count_nil,
      fun x hx => absurd hx (Set.notMem_empty x)⟩
  have hstring : Balanced ∅ (ObjectHeap.create .empty (.string ['a'])).2 [0] :=
    create_spec hempty
  exact create_spec hstring

theorem countable_oneElement : Countable oneElement := by
  intro x
  show Function.update (Function.update (fun _ => 0) 0 1) 1 1 x + 1 < _
  rcases x with _ | _ | x <;> simp

theorem indexed_last :
    ((ReadsElement oneElement 1 [.int 7] (.wrap (-1)) ∧
          StoresElement oneElement 1 ⟨8, .typeInt, [.int 7]⟩ (.wrap (-1)) (.int 5) ∧
          ReadsStored oneElement 1 ⟨8, .typeInt, [.int 7]⟩ (.wrap (-1)) 0 (.int 5)) ↔
        ReachesPosition 1 (-1) ∧ (InBounds 1 (-1) → ReachesPosition 1 0)) ∧
      (ReadsCharacter oneElement 0 ['a'] (.wrap (-1)) ↔ ReachesPosition 1 (-1)) :=
  indexed_iff (r := 1) (a := ⟨8, .typeInt, [.int 7]⟩) (s := 0) (.wrap (-1)) 0
    balanced_oneElement countable_oneElement rfl (by decide) (by decide)
    (fun x hx => absurd hx List.not_mem_nil) rfl rfl
    (show ((['a'].length : ℕ) : ℤ) ≤ intMax by decide)

/-- An index of `2 ^ 32` reads the first element. -/
theorem not_indexed :
    ¬ ReadsElement oneElement 1 [.int 7] (.wrap (2 ^ 32)) := by
  intro hread
  have hreaches := (readsElement_iff (a := ⟨8, .typeInt, [.int 7]⟩) balanced_oneElement
    countable_oneElement.retainable rfl (by decide)).mp hread
  exact absurd hreaches (by decide)

end Indexing

end BreadLang
