import BreadLang.Codegen.OperatorTyping
import BreadLang.Core.DictPacked
import BreadLang.Runtime.Homogeneous
import BreadLang.Runtime.Indexing

/-!
# The typing of index expressions against the runtime

The semantic analysis gives an index expression a type from the types of its parts, with any
type as that of a dictionary's keys, and accepts every assignment to an index.  The runtime
knows string keys alone, and the types that an array and a dictionary carry.

## Main results

* `index_typing_iff`: when reads, stores and literals do without a mismatch of types.
-/

namespace BreadLang

open RefCount

/-! ### The values of a type -/

/-- An array of elements with this tag. -/
structure ArrayBody.Carries (a : ArrayBody) (element : VarType) : Prop where
  tag : a.elementType = element ∨ (a.elementType = .typeNil ∧ a.items = [])
  counted : (a.items.length : ℤ) ≤ intMax

/-- A dictionary with keys and values of these tags, which counts its entries. -/
structure DictBody.Carries (d : DictBody) (key value : VarType) : Prop where
  keyTag : d.keyType = key ∨ d.keyType = .typeNil
  valueTag : d.valueType = value ∨ d.valueType = .typeNil
  counted : (d.entries.countP HeapEntry.isLive : ℤ) ≤ d.count
  capacity : 0 ≤ d.capacity

/-- **The values of a type** in a heap: the tag is that of the type, and so is what an array,
a dictionary or an optional holds.  Arrays, dictionaries and the data of strings are there. -/
def HasType (body : Ref → Option ObjectBody) : TypeDescriptor → HeapValue → Prop
  | .string, v => ∃ s, v = .string s ∧ ∀ r, s = some r → ∃ data, body r = some (.string data)
  | .array element, v => ∃ r a, v = .array (some r) ∧ body r = some (.array a) ∧
      a.Carries element.baseType ∧ ∀ w ∈ a.items, HasType body element w
  | .dict key value, v => ∃ r d, v = .dict (some r) ∧ body r = some (.dict d) ∧
      d.Carries key.baseType value.baseType ∧
        ∀ e ∈ d.entries, e.isLive = true → HasType body key e.key ∧ HasType body value e.value
  | .optional wrapped, v => ∃ o, v = .optional o ∧
      ∀ r, o = some r → ∃ w, body r = some (.optional w) ∧
        ∀ x, w = some x → HasType body wrapped x
  | t, v => v.type = t.baseType

section HasType

variable {body : Ref → Option ObjectBody} {t index out : TypeDescriptor} {v : HeapValue}

theorem HasType.type_eq (hv : HasType body t v) : v.type = t.baseType := by
  cases t with
  | string =>
      obtain ⟨s, rfl, -⟩ := hv
      rfl
  | array element =>
      obtain ⟨r, a, rfl, -⟩ := hv
      rfl
  | dict key value =>
      obtain ⟨r, d, rfl, -⟩ := hv
      rfl
  | optional wrapped =>
      obtain ⟨o, rfl, -⟩ := hv
      rfl
  | _ => exact hv

/-- Nothing but an `Int` may stand where one is expected. -/
theorem compatible_int_iff : index.compatible .int = true ↔ index = .int := by
  cases index <;> simp [TypeDescriptor.compatible, TypeDescriptor.equals]

/-- The types of index expressions that the analysis accepts. -/
theorem indexTypeDesc_ok (h : indexTypeDesc t index = .ok out) :
    (t = .array out ∧ index = .int) ∨ (t = .string ∧ index = .int ∧ out = .string) ∨
      ∃ key, t = .dict key out := by
  cases t with
  | array element =>
      rw [indexTypeDesc] at h
      split at h
      · rename_i hindex
        cases h
        exact .inl ⟨rfl, compatible_int_iff.mp hindex⟩
      · cases h
  | dict key value =>
      rw [indexTypeDesc] at h
      split at h
      · cases h
        exact .inr (.inr ⟨key, rfl⟩)
      · cases h
  | string =>
      rw [indexTypeDesc] at h
      split at h
      · rename_i hindex
        cases h
        exact .inr (.inl ⟨rfl, compatible_int_iff.mp hindex, rfl⟩)
      · cases h
  | _ => cases h

/-- An `Int`. -/
theorem HasType.int (hv : HasType body .int v) : ∃ i, v = .int i := by
  have htype := hv.type_eq
  cases v with
  | int i => exact ⟨i, rfl⟩
  | _ => cases htype

end HasType

/-! ### Reads -/

/-- **A typed read**: one that returns has succeeded, with a value of the type. -/
def ReadsTyped (h : ObjectHeap) (target idx : HeapValue) (out : TypeDescriptor) : Prop :=
  Gives (h.indexOp target idx) fun result =>
    result.2.2 = .ok () ∧ HasType result.2.1.body out result.1

section Reads

variable {h : ObjectHeap} {t index out key : TypeDescriptor} {target idx : HeapValue}
  {i : BreadInt}

/-- A read of an array gives one of its elements. -/
theorem indexArray_gives {r : Ref} {b : ArrayBody} (hb : h.body r = some (.array b)) :
    Gives (h.indexArray (some r) i) fun result =>
      result.2.body = h.body ∧ result.1 ∈ b.items := by
  rw [ObjectHeap.indexArray, ObjectHeap.arrayItems, ObjectHeap.getArray_eq hb]
  refine gives_bind (P := (· = b.items)) (gives_ok rfl) fun items hitems => ?_
  subst hitems
  refine gives_bind_any fun k => ?_
  split
  · exact gives_error
  split
  · rename_i v hv
    exact gives_bind ObjectHeap.valueClone_body fun h' hbody =>
      gives_ok ⟨hbody, List.mem_of_getElem? hv⟩
  · exact gives_error

theorem reads_array (ht : HasType h.body (.array out) target) (hi : HasType h.body .int idx) :
    ReadsTyped h target idx out := by
  obtain ⟨i, rfl⟩ := hi.int
  obtain ⟨r, b, rfl, hb, -, hitems⟩ := ht
  refine gives_bind (indexArray_gives hb) ?_
  rintro ⟨v, h'⟩ ⟨hbody, hmem⟩
  refine gives_ok ⟨rfl, ?_⟩
  show HasType h'.body out v
  rw [hbody]
  exact hitems v hmem

theorem reads_string (ht : HasType h.body .string target) (hi : HasType h.body .int idx) :
    ReadsTyped h target idx .string := by
  obtain ⟨i, rfl⟩ := hi.int
  obtain ⟨s, rfl, -⟩ := ht
  have hstring : Gives (h.indexString s i) fun result =>
      HasType result.2.body .string result.1 := by
    refine gives_bind_any fun data => gives_bind_any fun k => ?_
    split
    · exact gives_error
    · refine gives_bind_any fun c => gives_ok ⟨_, rfl, fun r hr => ?_⟩
      obtain rfl := Option.some.inj hr
      exact ⟨_, body_create h _⟩
  refine gives_bind hstring ?_
  rintro ⟨v, h'⟩ hv
  exact gives_ok ⟨rfl, hv⟩

/-- A read of a dictionary gives the value of a live entry. -/
theorem dictGet_gives {r : Ref} {b : DictBody} {bytes : BreadString}
    (hb : h.body r = some (.dict b)) :
    Gives (h.dictGet (some r) bytes) fun found => ∀ v, found = some v →
      ∃ e ∈ b.entries, e.isLive = true ∧ v = e.value := by
  refine gives_bind getDict_spec fun b' hb' => ?_
  cases hb.symm.trans hb'
  refine gives_bind (scan_spec 0 b.entries) fun slot hslot => ?_
  cases slot with
  | none => exact gives_pure fun v hv => by cases hv
  | some s =>
      obtain ⟨k, e, hk, he, hholds⟩ := hslot.1 s rfl
      obtain rfl : s = k := by omega
      have hentry : b.entryAt s = .ok e := by rw [DictBody.entryAt, he]
      show Gives (b.entryAt s >>= fun e => pure (some e.value)) _
      rw [hentry]
      refine gives_pure fun v hv => ?_
      obtain rfl := Option.some.inj hv
      exact ⟨e, List.mem_of_getElem? he, ObjectHeap.live_of_holdsString hholds, rfl⟩

theorem reads_dict (ht : HasType h.body (.dict key out) target)
    (hi : HasType h.body .string idx) : ReadsTyped h target idx out := by
  obtain ⟨r, b, rfl, hb, -, hentries⟩ := ht
  obtain ⟨s, rfl, -⟩ := hi
  have hdict : Gives (h.indexDict (some r) s) fun result =>
      HasType result.2.body out result.1 := by
    refine gives_bind_any fun bytes => gives_bind (dictGet_gives hb) fun found hfound => ?_
    cases found with
    | none => exact gives_error
    | some v =>
        obtain ⟨e, he, hlive, rfl⟩ := hfound v rfl
        refine gives_bind ObjectHeap.valueClone_body fun h' hbody => gives_ok ?_
        show HasType h'.body out e.value
        rw [hbody]
        exact (hentries e he hlive).2
  refine gives_bind hdict ?_
  rintro ⟨v, h'⟩ hv
  exact gives_ok ⟨rfl, hv⟩

/-- A key of another type is a mismatch. -/
theorem not_reads_dict (ht : HasType h.body (.dict key out) target)
    (hi : idx.type ≠ .typeString) : ¬ ReadsTyped h target idx out := by
  obtain ⟨r, b, rfl, -⟩ := ht
  have hread : h.indexOp (.dict (some r)) idx =
      .ok (.nil, h, mismatchStatus "Dictionary key must be String") := by
    cases idx with
    | string s => exact absurd rfl hi
    | _ => rfl
  intro hreads
  obtain ⟨hstatus, -⟩ := hreads _ hread
  cases hstatus

/-- **Reads** are typed exactly when a dictionary is read with a string. -/
theorem readsTyped_iff (hinfer : indexTypeDesc t index = .ok out) (ht : HasType h.body t target)
    (hi : HasType h.body index idx) :
    ReadsTyped h target idx out ↔ (t.baseType = .typeDict → index.baseType = .typeString) := by
  rcases indexTypeDesc_ok hinfer with ⟨rfl, rfl⟩ | ⟨rfl, rfl, rfl⟩ | ⟨key, rfl⟩
  · exact iff_of_true (reads_array ht hi) fun h => by cases h
  · exact iff_of_true (reads_string ht hi) fun h => by cases h
  · have hidx := hi.type_eq
    by_cases hstring : index.baseType = .typeString
    · have hindex : index = .string := by cases index <;> first | rfl | cases hstring
      subst hindex
      exact iff_of_true (reads_dict ht hi) fun _ => rfl
    · exact iff_of_false (not_reads_dict ht (hidx ▸ hstring)) fun h => hstring (h rfl)

end Reads

/-! ### Stores -/

/-- **A typed store**: one that returns has succeeded. -/
def StoresTyped (h : ObjectHeap) (target idx v : HeapValue) : Prop :=
  Gives (h.indexSetOp target idx v) fun result => result.2 = .ok ()

/-- The types of an index and of a value that fit an array or a dictionary: a dictionary
without types of its own takes those of its first pair. -/
def StoreFits (body : Ref → Option ObjectBody) (target idx : HeapValue) :
    TypeDescriptor → TypeDescriptor → TypeDescriptor → Prop
  | .array element, index, value => index.baseType = .typeInt ∧
      ∀ r a i, target = .array (some r) → body r = some (.array a) → idx = .int i →
        InBounds a.items.length (toInt i.val) →
          element.baseType = .typeNil ∨ value.baseType = element.baseType
  | .dict key element, index, value => index.baseType = .typeString ∧
      ∀ r d, target = .dict (some r) → body r = some (.dict d) →
        (d.keyType = .typeNil ∨ key.baseType = .typeString) ∧
          (d.valueType = .typeNil ∨ value.baseType = element.baseType)
  | _, _, _ => True

section Stores

variable {h : ObjectHeap} {owed : List Ref} {t index value element key : TypeDescriptor}
  {target idx v : HeapValue} {r : Ref} {a : ArrayBody} {d : DictBody} {bytes : BreadString}

theorem ArrayBody.Carries.mismatch_iff {tag : VarType} (ha : a.Carries tag)
    (hitems : a.items ≠ []) :
    a.mismatch v = false ↔ tag = .typeNil ∨ v.type = tag := by
  obtain rfl : a.elementType = tag := ha.tag.resolve_right fun h => hitems h.2
  rw [ArrayBody.mismatch, Bool.and_eq_false_iff, bne_eq_false_iff_eq, bne_eq_false_iff_eq,
    eq_comm (a := v.type)]

theorem arraySet_gives {k : ℤ} (hbody : h.body r = some (.array a))
    (hmatch : a.mismatch v = false) (hk : 0 ≤ k ∧ k < a.count) :
    Gives (h.arraySet (some r) k v) fun result => result.2 = true := by
  rw [ObjectHeap.arraySet, ObjectHeap.getArray_eq hbody]
  show Gives (if k < 0 ∨ a.count ≤ k then _ else _) _
  rw [if_neg (by omega), hmatch]
  exact gives_bind_any fun h' => gives_pure rfl

theorem arraySet_refused {k : ℤ} (hbody : h.body r = some (.array a))
    (hmatch : a.mismatch v = true) (hk : 0 ≤ k ∧ k < a.count) :
    h.arraySet (some r) k v = .ok (h, false) := by
  rw [ObjectHeap.arraySet, ObjectHeap.getArray_eq hbody]
  show (if k < 0 ∨ a.count ≤ k then _ else _) = _
  rw [if_neg (by omega), hmatch]
  rfl

theorem storesTyped_array_iff (ht : HasType h.body (.array element) target)
    (hi : HasType h.body index idx) (hv : HasType h.body value v) :
    StoresTyped h target idx v ↔ StoreFits h.body target idx (.array element) index value := by
  have htype := hi.type_eq
  obtain ⟨r, a, rfl, hbody, ha, -⟩ := ht
  by_cases hint : index.baseType = .typeInt
  · obtain ⟨i, rfl⟩ : ∃ i, idx = .int i := by
      rw [hint] at htype
      cases idx with
      | int i => exact ⟨i, rfl⟩
      | _ => cases htype
    rw [StoresTyped, indexSetOp_array hbody ha.counted, StoreFits]
    by_cases hin : InBounds a.items.length (toInt i.val)
    · have hlt := position_lt hin
      have hk : 0 ≤ ((position a.items.length (toInt i.val) : ℕ) : ℤ) ∧
          ((position a.items.length (toInt i.val) : ℕ) : ℤ) < a.count := by
        rw [ArrayBody.count]
        omega
      have hmismatch := ha.mismatch_iff (v := v) (List.ne_nil_of_length_pos (by omega))
      rw [hv.type_eq] at hmismatch
      rw [if_pos hin]
      cases hmatch : a.mismatch v with
      | false =>
          refine iff_of_true ?_ ⟨hint, ?_⟩
          · refine gives_bind (arraySet_gives hbody hmatch hk) ?_
            rintro ⟨h', stored⟩ rfl
            exact gives_pure rfl
          · rintro r' a' i' ⟨⟩ hbody' ⟨⟩ -
            exact hmismatch.mp hmatch
      | true =>
          refine iff_of_false ?_ fun hfits => ?_
          · rw [arraySet_refused hbody hmatch hk]
            intro htyped
            cases htyped _ rfl
          · rw [hmismatch.mpr (hfits.2 r a i rfl hbody rfl hin)] at hmatch
            cases hmatch
    · rw [if_neg hin]
      refine iff_of_true gives_error ⟨hint, ?_⟩
      rintro r' a' i' ⟨⟩ hbody' ⟨⟩ hin'
      cases hbody.symm.trans hbody'
      exact absurd hin' hin
  · -- the index is no `Int`
    refine iff_of_false (fun htyped => ?_) fun hfits => hint hfits.1
    have hset : h.indexSetOp (.array (some r)) idx v =
        .ok (h, mismatchStatus "Array index must be Int") := by
      cases idx with
      | int i => exact absurd htype.symm hint
      | _ => rfl
    cases htyped _ hset

/-- An insertion into a table with a slot that is not live. -/
theorem insertFirstFree_gives {k : Ref}
    (hroom : d.entries.countP HeapEntry.isLive < d.entries.length) :
    Gives (h.insertFirstFree r k d v) fun result => result.2 = true := by
  refine gives_bind (scan_spec 0 d.entries) ?_
  rintro found ⟨-, hnone⟩
  cases found with
  | some slot => exact gives_bind_any fun h₁ => gives_bind_any fun h₂ => gives_pure rfl
  | none =>
      -- every slot would be live
      have hfull : d.entries.countP HeapEntry.isLive = d.entries.length := by
        refine List.countP_eq_length.mpr fun e he => ?_
        have htest := Except.ok.inj (hnone rfl e he)
        rw [Bool.or_eq_false_iff, Bool.not_eq_false'] at htest
        rw [HeapEntry.isLive, htest.1, htest.2]
        rfl
      omega

/-- The loop that moves the entries to a larger table fills no slot but theirs. -/
theorem compactLoop_occupied (entries : List HeapEntry) (d : DictBody) :
    Gives (ObjectHeap.compactLoop entries d) fun d' =>
      d'.entries.length = d.entries.length ∧
        occupiedCount d' ≤ occupiedCount d + entries.countP HeapEntry.isLive := by
  induction entries generalizing d with
  | nil => exact gives_ok ⟨rfl, le_rfl⟩
  | cons entry rest ih =>
      rw [ObjectHeap.compactLoop]
      by_cases hlive : entry.isLive = true
      · rw [if_pos hlive, List.countP_cons_of_pos hlive]
        refine gives_bind (scan_spec 0 d.entries) ?_
        rintro found ⟨hfound, -⟩
        cases found with
        | none => exact (ih d).mono fun d' hd' => ⟨hd'.1, by omega⟩
        | some slot =>
            obtain ⟨k, e, hk, he, htest⟩ := hfound slot rfl
            obtain rfl : slot = k := by omega
            have hoccupied : entry.isOccupied = true := by
              rw [HeapEntry.isLive, Bool.and_eq_true] at hlive
              exact hlive.1
            have hcount := occupiedCount_addEntry he (by simpa using htest) hoccupied
            refine (ih (d.addEntry slot entry)).mono fun d' hd' => ⟨?_, by omega⟩
            rw [hd'.1, length_addEntry]
      · rw [if_neg hlive, List.countP_cons_of_neg hlive]
        exact ih d

/-- The capacity that a table grows to has a slot more than there are live entries. -/
theorem length_lt_grownCapacity {newCapacity : ℤ} (hcapacity : 0 ≤ d.capacity)
    (hgrown : d.header.grownCapacity = .ok newCapacity) :
    d.entries.countP HeapEntry.isLive < newCapacity.toNat := by
  have hlive : d.entries.countP HeapEntry.isLive ≤ d.entries.length := List.countP_le_length
  rw [d.sized] at hlive
  rw [BreadDict.grownCapacity] at hgrown
  split at hgrown
  · rename_i hzero
    cases hgrown
    rw [show d.capacity = 0 from hzero] at hlive
    exact Nat.lt_of_le_of_lt hlive (by decide)
  · rename_i hpos
    have hne : d.capacity ≠ 0 := hpos
    rw [checkedInt] at hgrown
    split at hgrown
    · cases hgrown
      show _ < (d.capacity * 2).toNat
      omega
    · cases hgrown

/-- A key and a value of the types of the dictionary are stored. -/
theorem setChecked_gives {k : Ref}
    (hcounted : (d.entries.countP HeapEntry.isLive : ℤ) ≤ d.count) (hcapacity : 0 ≤ d.capacity) :
    Gives (setChecked h r k bytes d v) fun result => result.2 = true := by
  refine gives_bind_any fun found => ?_
  cases found with
  | some slot =>
      exact gives_bind_any fun e => gives_bind_any fun h₁ => gives_bind_any fun h₂ =>
        gives_pure rfl
  | none =>
      dsimp only
      split
      · refine gives_bind (P := fun c => d.header.grownCapacity = .ok c) (fun c hc => hc)
          fun newCapacity hgrown => ?_
        have hlt := length_lt_grownCapacity hcapacity hgrown
        rw [if_neg (by omega)]
        refine gives_bind (compactLoop_occupied d.entries _) ?_
        rintro d' ⟨hlength, hoccupied⟩
        refine insertFirstFree_gives ?_
        have hempty : occupiedCount (d.emptied newCapacity) = 0 := by
          refine List.countP_eq_zero.mpr fun e he => ?_
          obtain rfl := List.eq_of_mem_replicate he
          exact Bool.false_ne_true
        have hlive : d'.entries.countP HeapEntry.isLive ≤ occupiedCount d' := by
          refine List.countP_mono_left fun e _ he => ?_
          rw [HeapEntry.isLive, Bool.and_eq_true] at he
          exact he.1
        rw [hlength, (d.emptied newCapacity).sized]
        show _ < newCapacity.toNat
        omega
      · rename_i hload
        refine insertFirstFree_gives ?_
        have hlow : ¬ 3 * d.capacity ≤ 4 * d.count :=
          fun hreached => hload (decide_eq_true hreached)
        have hsized := d.sized
        omega

/-- The dictionary is where it was when the string of the key has been made. -/
theorem getDict_stringNew (hb : Balanced ∅ h owed) (hbody : h.body r = some (.dict d)) :
    (h.stringNew (cString bytes)).2.getDict r = .ok d := by
  have hne := hb.ne_size (hbody ▸ Option.some_ne_none _)
  rw [ObjectHeap.getDict, body_stringNew_of_ne hne, hbody]

theorem dictSet_gives (hb : Balanced ∅ h owed) (hbody : h.body r = some (.dict d))
    (hkey : DictBody.mismatch d.keyType (.string none) = false)
    (hvalue : DictBody.mismatch d.valueType v = false)
    (hcounted : (d.entries.countP HeapEntry.isLive : ℤ) ≤ d.count) (hcapacity : 0 ≤ d.capacity) :
    Gives (h.dictSet r bytes v) fun result => result.2 = true := by
  have hmatch : (DictBody.mismatch d.keyType (.string (some h.size)) ||
      DictBody.mismatch d.valueType v) = false := Bool.or_eq_false_iff.mpr ⟨hkey, hvalue⟩
  rw [dictSet_eq (getDict_stringNew hb hbody) hmatch]
  exact setChecked_gives hcounted hcapacity

/-- A key or a value of another type is not stored. -/
theorem dictSet_refused (hb : Balanced ∅ h owed) (hbody : h.body r = some (.dict d))
    (hmismatch : DictBody.mismatch d.keyType (.string none) = true ∨
      DictBody.mismatch d.valueType v = true) :
    ∃ h', h.dictSet r bytes v = .ok (h', false) := by
  obtain ⟨h', hrelease, -⟩ : ∃ h', (h.stringNew (cString bytes)).2.releaseRefs [h.size] = .ok h' ∧
      Released ∅ (h.stringNew (cString bytes)).2 owed h' :=
    releaseRefs_returns (balanced_stringNew hb (cString bytes))
  refine ⟨h', ?_⟩
  have hreturn : (do return (← (h.stringNew (cString bytes)).2.releaseRefs [h.size], false)) =
      (.ok (h', false) : Exec (ObjectHeap × Bool)) := by
    rw [hrelease]
    rfl
  rw [← hreturn, ObjectHeap.dictSet]
  dsimp only
  rw [getDict_stringNew hb hbody]
  show (if DictBody.mismatch d.keyType (.string none) = true then _ else
    if DictBody.mismatch d.valueType v = true then _ else _) = _
  split
  · rfl
  · rename_i hkey
    rw [if_pos (hmismatch.resolve_left hkey)]
    rfl

theorem mismatch_iff {expected tag : VarType}
    (hexpected : expected = tag ∨ expected = .typeNil) (hv : v.type = value.baseType) :
    DictBody.mismatch expected v = false ↔ expected = .typeNil ∨ value.baseType = tag := by
  rw [DictBody.mismatch, Bool.and_eq_false_iff, bne_eq_false_iff_eq, bne_eq_false_iff_eq, hv]
  rcases hexpected with rfl | rfl
  · rw [eq_comm (a := value.baseType)]
  · exact iff_of_true (.inl rfl) (.inl rfl)

theorem storesTyped_dict_iff (hb : Balanced ∅ h owed)
    (ht : HasType h.body (.dict key element) target) (hi : HasType h.body index idx)
    (hv : HasType h.body value v) :
    StoresTyped h target idx v ↔
      StoreFits h.body target idx (.dict key element) index value := by
  obtain ⟨r, d, rfl, hbody, hd, -⟩ := ht
  by_cases hstring : index = .string
  · subst hstring
    obtain ⟨s, rfl, hs⟩ := hi
    obtain ⟨data, hdata⟩ : ∃ data, h.stringContents s = .ok data := by
      cases s with
      | none => exact ⟨[], rfl⟩
      | some x =>
          obtain ⟨data, hx⟩ := hs x rfl
          exact ⟨data, by rw [ObjectHeap.stringContents, ObjectHeap.stringAt, hx]⟩
    have hset : h.indexSetOp (.dict (some r)) (.string s) v =
        (h.dictSet r (cString data) v >>= fun p =>
          pure (p.1, if p.2 then .ok () else .error none)) := by
      show (h.stringContents s >>= _) = _
      rw [hdata]
      rfl
    have hkey : DictBody.mismatch d.keyType (.string none) = false ↔
        d.keyType = .typeNil ∨ TypeDescriptor.string.baseType = key.baseType :=
      mismatch_iff hd.keyTag rfl
    have hvalue := mismatch_iff hd.valueTag hv.type_eq
    rw [StoresTyped, hset]
    by_cases hmatch : DictBody.mismatch d.keyType (.string none) = false ∧
        DictBody.mismatch d.valueType v = false
    · refine iff_of_true ?_ ⟨rfl, ?_⟩
      · refine gives_bind (dictSet_gives hb hbody hmatch.1 hmatch.2 hd.counted hd.capacity) ?_
        rintro ⟨h', stored⟩ rfl
        exact gives_pure rfl
      · rintro r' d' ⟨⟩ hbody'
        cases hbody.symm.trans hbody'
        exact ⟨(hkey.mp hmatch.1).imp_right Eq.symm, hvalue.mp hmatch.2⟩
    · refine iff_of_false (fun htyped => ?_) fun hfits => hmatch ?_
      · rw [not_and_or, Bool.not_eq_false, Bool.not_eq_false] at hmatch
        obtain ⟨h', hrefused⟩ : ∃ h', h.dictSet r (cString data) v = .ok (h', false) :=
          dictSet_refused hb hbody hmatch
        rw [hrefused] at htyped
        cases htyped _ rfl
      · obtain ⟨hkeyFits, hvalueFits⟩ := hfits.2 r d rfl hbody
        exact ⟨hkey.mpr (hkeyFits.imp_right Eq.symm), hvalue.mpr hvalueFits⟩
  · -- the index is no string
    have hne : index.baseType ≠ .typeString := by
      cases index <;> first | exact absurd rfl hstring | exact fun h => by cases h
    refine iff_of_false (fun htyped => ?_) fun hfits => hne hfits.1
    have htype := hi.type_eq
    have hset : h.indexSetOp (.dict (some r)) idx v =
        .ok (h, mismatchStatus "Dictionary key must be String") := by
      cases idx with
      | string s => exact absurd htype.symm hne
      | _ => rfl
    cases htyped _ hset

/-- **Stores** are typed exactly when the types of the index and of the value fit. -/
theorem storesTyped_iff (hb : Balanced ∅ h owed) (ht : HasType h.body t target)
    (hi : HasType h.body index idx) (hv : HasType h.body value v) :
    StoresTyped h target idx v ↔ StoreFits h.body target idx t index value := by
  have habort {target : HeapValue} (ha : target.type ≠ .typeArray) (hd : target.type ≠ .typeDict) :
      StoresTyped h target idx v := by
    have hset : h.indexSetOp target idx v =
        .error (nullError "Type does not support index assignment") := by
      cases target with
      | array a => exact absurd rfl ha
      | dict d => exact absurd rfl hd
      | _ => rfl
    rw [StoresTyped, hset]
    exact gives_error
  cases t with
  | array element => exact storesTyped_array_iff ht hi hv
  | dict key element => exact storesTyped_dict_iff hb ht hi hv
  | _ =>
      have htype := ht.type_eq
      refine iff_of_true (habort ?_ ?_) trivial
      · rw [htype]
        exact fun h => by cases h
      · rw [htype]
        exact fun h => by cases h

end Stores

/-! ### Literals -/

/-- The values of an entry of a literal: they have the types that the analysis gives it. -/
def EntryValues (cg : Cg) (entry : ASTExpr × ASTExpr) (p : BreadValue × BreadValue) : Prop :=
  ∃ k v, cg.inferTypeDesc entry.1 = .ok k ∧ cg.inferTypeDesc entry.2 = .ok v ∧
    p.1.type = k.baseType ∧ p.2.type = v.baseType

/-- The literals that fit the runtime: the keys are strings, they differ before their first
NUL if they differ, and there are not too many of them. -/
def LiteralFits (key : TypeDescriptor) (ps : List (BreadValue × BreadValue)) : Prop :=
  ps = [] ∨ (key.baseType = .typeString ∧
    ((ps.map Prod.fst).Nodup →
      (ps.map fun p => BreadDict.keyBytes p.1).Nodup ∧ ps.length ≤ BreadDict.maxStored))

section Literals

variable {cg : Cg} {key value : TypeDescriptor} {entries : List (ASTExpr × ASTExpr)}
  {ps : List (BreadValue × BreadValue)}

/-- Values of the types of an entry have the tags of the literal's types. -/
theorem EntryValues.tags {entry : ASTExpr × ASTExpr} {p : BreadValue × BreadValue}
    {k v : TypeDescriptor} (hp : EntryValues cg entry p) (hk : cg.inferTypeDesc entry.1 = .ok k)
    (hv : cg.inferTypeDesc entry.2 = .ok v) :
    p.1.type = k.baseType ∧ p.2.type = v.baseType := by
  obtain ⟨k', v', hk', hv', hkey, hvalue⟩ := hp
  cases hk.symm.trans hk'
  cases hv.symm.trans hv'
  exact ⟨hkey, hvalue⟩

/-- The entries that the loop accepts have the types of the first. -/
theorem inferEntries_tags (h : cg.inferEntries key value entries = .ok ())
    (hps : List.Forall₂ (EntryValues cg) entries ps) :
    ∀ p ∈ ps, p.1.type = key.baseType ∧ p.2.type = value.baseType := by
  induction hps with
  | nil => exact fun p hp => absurd hp List.not_mem_nil
  | @cons entry p entries ps hentry _ ih =>
      rw [Cg.inferEntries] at h
      obtain ⟨⟨k, v⟩, hboth, h⟩ := bind_eq_ok.mp h
      obtain ⟨hk, hv⟩ := inferBoth_eq_ok hboth
      dsimp only at h
      split at h
      · cases h
      rename_i hequals
      rw [Bool.or_eq_true, not_or, Bool.not_eq_true, Bool.not_eq_true, Bool.not_eq_false',
        Bool.not_eq_false'] at hequals
      have htags := hentry.tags hk hv
      refine List.forall_mem_cons.mpr ⟨⟨?_, ?_⟩, ih h⟩
      · rw [htags.1, baseType_of_equals hequals.1]
      · rw [htags.2, baseType_of_equals hequals.2]

/-- **Literals** are stored in full exactly when their keys fit. -/
theorem literalStored_iff_fits (hinfer : cg.inferTypeDesc (.dict entries) = .ok (.dict key value))
    (hps : List.Forall₂ (EntryValues cg) entries ps) :
    BreadDict.LiteralStored ps ↔ LiteralFits key ps := by
  have htags : ∀ p ∈ ps, p.1.type = key.baseType ∧ p.2.type = value.baseType := by
    cases hps with
    | nil => exact fun p hp => absurd hp List.not_mem_nil
    | @cons entry p entries ps hentry hrest =>
        obtain ⟨ek, ev⟩ := entry
        rw [Cg.inferTypeDesc] at hinfer
        obtain ⟨⟨k, v⟩, hboth, hinfer⟩ := bind_eq_ok.mp hinfer
        obtain ⟨hk, hv⟩ := inferBoth_eq_ok hboth
        obtain ⟨⟨⟩, hentries, hreturn⟩ := bind_eq_ok.mp hinfer
        cases hreturn
        exact List.forall_mem_cons.mpr ⟨hentry.tags hk hv, inferEntries_tags hentries hrest⟩
  exact BreadDict.literalStored_iff (fun p hp => (htags p hp).1) fun p hp => (htags p hp).2

end Literals

/-! ### The agreement -/

/-- **Index typing**: reads are typed except of dictionaries with keys that are no strings,
stores when the index and the value fit, and literals are stored in full when they fit. -/
theorem index_typing_iff (h : ObjectHeap) (owed : List Ref) (cg : Cg) :
    (∀ (t index out : TypeDescriptor) (target idx : HeapValue),
      indexTypeDesc t index = .ok out → HasType h.body t target → HasType h.body index idx →
        (ReadsTyped h target idx out ↔
          (t.baseType = .typeDict → index.baseType = .typeString))) ∧
    (∀ (t index value : TypeDescriptor) (target idx v : HeapValue), Balanced ∅ h owed →
      HasType h.body t target → HasType h.body index idx → HasType h.body value v →
        (StoresTyped h target idx v ↔ StoreFits h.body target idx t index value)) ∧
    (∀ (entries : List (ASTExpr × ASTExpr)) (key value : TypeDescriptor)
      (ps : List (BreadValue × BreadValue)),
        cg.inferTypeDesc (.dict entries) = .ok (.dict key value) →
          List.Forall₂ (EntryValues cg) entries ps →
            (BreadDict.LiteralStored ps ↔ LiteralFits key ps)) :=
  ⟨fun _ _ _ _ _ hinfer ht hi => readsTyped_iff hinfer ht hi,
    fun _ _ _ _ _ _ hb ht hi hv => storesTyped_iff hb ht hi hv,
    fun _ _ _ _ hinfer hps => literalStored_iff_fits hinfer hps⟩

theorem hasType_oneElement : HasType oneElement.body (.array .int) (.array (some 1)) := by
  refine ⟨1, ⟨8, .typeInt, [.int 7]⟩, rfl, rfl, ⟨.inl rfl, by decide⟩, fun w hw => ?_⟩
  rw [List.mem_singleton.mp hw]
  exact rfl

/-- An element of `[7]` is read and replaced, and `{"a": 1}` is stored. -/
theorem index_typing_agrees :
    (ReadsTyped oneElement (.array (some 1)) (.int 0) .int ↔
        ((TypeDescriptor.array .int).baseType = .typeDict →
          TypeDescriptor.int.baseType = .typeString)) ∧
      (StoresTyped oneElement (.array (some 1)) (.int 0) (.int 5) ↔
        StoreFits oneElement.body (.array (some 1)) (.int 0) (.array .int) .int .int) ∧
      (BreadDict.LiteralStored [(.string ['a'], .int 1)] ↔
        LiteralFits .string [(.string ['a'], .int 1)]) := by
  obtain ⟨hread, hstore, hliteral⟩ := index_typing_iff oneElement [1, 0] .init
  refine ⟨hread (.array .int) .int .int _ _ rfl hasType_oneElement rfl, ?_, ?_⟩
  · exact hstore (.array .int) .int .int _ _ _ balanced_oneElement hasType_oneElement rfl rfl
  · exact hliteral [(.stringLiteral ['a'], .int 1)] .string .int _ rfl
      (.cons ⟨.string, .int, rfl, rfl, rfl, rfl⟩ .nil)

/-- The literal `{1: 2}` is accepted as a dictionary with `Int` keys and stays empty, and a
read of a dictionary of its type is a mismatch. -/
theorem index_typing_not_strings :
    (Cg.init.inferTypeDesc (.dict [(.int 1, .int 2)]) = .ok (.dict .int .int) ∧
        List.Forall₂ (EntryValues .init) [(.int 1, .int 2)] [(.int 1, .int 2)] ∧
        ¬ BreadDict.LiteralStored [(.int 1, .int 2)]) ∧
      indexTypeDesc (.dict .int .int) .int = .ok .int ∧
      HasType (ObjectHeap.create .empty (.dict (.new 0 .typeNil .typeNil))).2.body
        (.dict .int .int) (.dict (some 0)) ∧
      ¬ ReadsTyped (ObjectHeap.create .empty (.dict (.new 0 .typeNil .typeNil))).2
        (.dict (some 0)) (.int 1) .int := by
  have hdict : HasType (ObjectHeap.create .empty (.dict (.new 0 .typeNil .typeNil))).2.body
      (.dict .int .int) (.dict (some 0)) :=
    ⟨0, _, rfl, rfl, ⟨.inr rfl, .inr rfl, le_rfl, le_rfl⟩, fun e he => absurd he List.not_mem_nil⟩
  refine ⟨⟨rfl, .cons ⟨.int, .int, rfl, rfl, rfl, rfl⟩ .nil, ?_⟩, rfl, hdict, ?_⟩
  · rintro ⟨hgives, -⟩
    cases hgives _ rfl
  · exact not_reads_dict hdict fun h => by cases h

end BreadLang
