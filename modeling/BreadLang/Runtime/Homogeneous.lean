import BreadLang.Runtime.ArrayList
import BreadLang.Runtime.ReferencesConserved

/-!
# Homogeneous collections

The element type of an array and the key and value types of a dictionary, against the
values that are in them.  `TYPE_NIL` stands for a type that has not been settled as well
as for the type of nil, and a collection settles for a type only while it is empty.  So a
collection of nils takes values of every type, and `StepUniform` names the steps that do
not use this.

`step_uniform` is the step lemma, for every operation on the heap;
`collections_homogeneous` is the result about runs.
-/

namespace BreadLang

open RefCount

/-! ### Uniform objects -/

/-- Every element has the element type. -/
def ArrayBody.Uniform (a : ArrayBody) : Prop :=
  ∀ v ∈ a.items, v.type = a.elementType

/-- Every live entry has the types of the dictionary. -/
def DictBody.Typed (d : DictBody) : Prop :=
  ∀ e ∈ d.entries, e.isLive = true → e.key.type = d.keyType ∧ e.value.type = d.valueType

/-- A dictionary that counts its live entries, and some of them more than once. -/
structure DictBody.Uniform (d : DictBody) : Prop where
  typed : d.Typed
  counted : (d.entries.countP HeapEntry.isLive : ℤ) ≤ d.count

/-- What an object has to be for the collections to be homogeneous. -/
def ObjectBody.Uniform : ObjectBody → Prop
  | .array a => a.Uniform
  | .dict d => d.Uniform
  | _ => True

/-- Every object is. -/
def ObjectHeap.Uniform (h : ObjectHeap) : Prop :=
  ∀ r b, h.body r = some b → b.Uniform

/-- Every other object is. -/
def ObjectHeap.UniformBut (h : ObjectHeap) (r : Ref) : Prop :=
  ∀ x b, x ≠ r → h.body x = some b → b.Uniform

/-! ### Storing a value -/

/-- The array has settled for a type, is empty, or gets a nil. -/
def ArrayBody.takes (a : ArrayBody) (v : HeapValue) : Bool :=
  a.elementType != .typeNil || a.items.isEmpty || v.type == .typeNil

/-- A type of a dictionary has been settled, nothing is in it, or it gets a nil. -/
def DictBody.takes (d : DictBody) (expected : VarType) (v : HeapValue) : Bool :=
  expected != .typeNil || d.count == 0 || v.type == .typeNil

namespace ObjectHeap

/-- A value may be stored in the array at an address. -/
def arrayTakes (h : ObjectHeap) (a : Option Ref) (v : HeapValue) : Bool :=
  match a.bind h.body with
  | some (.array a) => a.takes v
  | _ => true

/-- A value may be stored at an index of the array, or there is no such index. -/
def arraySetTakes (h : ObjectHeap) (a : Option Ref) (idx : ℤ) (v : HeapValue) : Bool :=
  match a.bind h.body with
  | some (.array a) => idx < 0 || a.count ≤ idx || a.takes v
  | _ => true

/-- A pair may be stored in the dictionary at an address, or it is rejected. -/
def dictTakes (h : ObjectHeap) (d : Option Ref) (key value : HeapValue) : Bool :=
  match d.bind h.body with
  | some (.dict d) =>
      DictBody.mismatch d.keyType key || DictBody.mismatch d.valueType value ||
        (d.takes d.keyType key && d.takes d.valueType value)
  | _ => true

/-- **No collection of nils gets a value of another type.** -/
def performUniform (h : ObjectHeap) : HeapOp → Bool
  | .arrayAppend a v | .arraySetSafe a _ v | .arrayInsert a v _ => h.arrayTakes a v
  | .arraySet a idx v => h.arraySetTakes a idx v
  | .dictSetSafe d key value => h.dictTakes d key value
  | .dictSet r _ value => h.dictTakes (some r) (.string none) value
  | _ => true

/-! ### Steps on the heap -/

section Heap

variable {h : ObjectHeap} {r : Ref} {b : ObjectBody} {v : HeapValue}

theorem Uniform.but (hu : h.Uniform) (r : Ref) : h.UniformBut r :=
  fun x b _ hb => hu x b hb

theorem Uniform.shrinks {h' : ObjectHeap} (hu : h.Uniform) (hshrinks : Shrinks h h') :
    h'.Uniform := by
  intro x b hb
  rcases hshrinks.body x with heq | hnone
  · exact hu x b (heq ▸ hb)
  · rw [hnone] at hb
    cases hb

theorem UniformBut.shrinks {h' : ObjectHeap} (hu : h.UniformBut r) (hshrinks : Shrinks h h') :
    h'.UniformBut r := by
  intro x b hx hb
  rcases hshrinks.body x with heq | hnone
  · exact hu x b hx (heq ▸ hb)
  · rw [hnone] at hb
    cases hb

theorem releaseRefs_shrinks (rs : List Ref) : Gives (h.releaseRefs rs) (Shrinks h) := by
  unfold releaseRefs
  cases hrun : drain ObjectBody.children h (rs.map .release) with
  | none => exact gives_error
  | some h' => exact gives_ok (drain_shrinks hrun)

theorem releaseRefs_uniform (hu : h.Uniform) (rs : List Ref) :
    Gives (h.releaseRefs rs) Uniform :=
  (releaseRefs_shrinks rs).mono fun _ hshrinks => hu.shrinks hshrinks

theorem objectRetain_body : Gives (h.objectRetain r) fun h' => h'.body = h.body := by
  unfold objectRetain
  split
  · exact gives_error
  split
  · exact gives_error
  · exact gives_ok rfl

theorem valueClone_body : Gives (h.valueClone v) fun h' => h'.body = h.body := by
  unfold valueClone
  split
  · exact objectRetain_body
  · exact gives_ok rfl

theorem Uniform.same {h' : ObjectHeap} (hu : h.Uniform) (hsame : h'.body = h.body) :
    h'.Uniform := by
  unfold Uniform
  rwa [hsame]

theorem UniformBut.same {h' : ObjectHeap} (hu : h.UniformBut r) (hsame : h'.body = h.body) :
    h'.UniformBut r := by
  unfold UniformBut
  rwa [hsame]

theorem create_uniform (hu : h.Uniform) (hb : b.Uniform) : (h.create b).2.Uniform := by
  intro x c hc
  by_cases hx : x = h.size
  · subst hx
    have hbody : (h.create b).2.body h.size = some b := body_create h b
    rw [hbody] at hc
    cases hc
    exact hb
  · refine hu x c ?_
    simpa [create, Heap.alloc, hx] using hc

theorem write_uniform (hu : h.UniformBut r) (hb : b.Uniform) : Gives (h.write r b) Uniform := by
  unfold write
  split
  · refine gives_ok fun x c hc => ?_
    by_cases hx : x = r
    · subst hx
      simp only [Heap.setBody, Function.update_self, Option.some.injEq] at hc
      exact hc ▸ hb
    · refine hu x c hx ?_
      simpa [Heap.setBody, hx] using hc
  · exact gives_error

theorem write_uniformBut (hu : h.UniformBut r) :
    Gives (h.write r b) fun h' => h'.UniformBut r := by
  refine body_write_of_ne.mono fun h' hsame x c hx hc => hu x c hx ?_
  rwa [hsame x hx] at hc

/-- Between the release of an old value and the store of a new one an object is not
uniform, and nothing looks at it. -/
theorem replaceValue_uniform {emptied filled : ObjectBody} {old new : HeapValue}
    (hu : h.UniformBut r) (hfilled : filled.Uniform) :
    Gives (h.replaceValue r emptied old new filled) Uniform := by
  refine gives_bind (write_uniformBut hu) fun h₁ hu₁ => ?_
  refine gives_bind (releaseRefs_shrinks _) fun h₂ hshrinks => ?_
  refine gives_bind valueClone_body fun h₃ hsame => ?_
  exact write_uniform ((hu₁.shrinks hshrinks).same hsame) hfilled

end Heap

/-! ### Arrays -/

section Arrays

variable {h : ObjectHeap} {r : Ref} {a : ArrayBody} {v : HeapValue}

theorem type_of_not_mismatch (hmismatch : ¬ a.mismatch v = true) :
    a.elementType = .typeNil ∨ a.elementType = v.type := by
  by_contra hne
  push Not at hne
  exact hmismatch (by simp [ArrayBody.mismatch, hne.1, hne.2])

/-- A value that may be stored has the element type once the array has settled for it. -/
theorem type_of_takes (hmismatch : ¬ a.mismatch v = true) (htakes : a.takes v = true)
    (hne : a.items ≠ []) : v.type = a.elementType := by
  rcases type_of_not_mismatch hmismatch with hnil | heq
  · rw [ArrayBody.takes, hnil] at htakes
    simp only [bne_self_eq_false, Bool.false_or, Bool.or_eq_true, List.isEmpty_iff,
      beq_iff_eq] at htakes
    rcases htakes with hempty | htype
    · exact absurd hempty hne
    · rw [hnil, htype]
  · exact heq.symm

theorem uniform_growIfFull : Gives a.growIfFull fun a' =>
    a'.items = a.items ∧ a'.elementType = a.elementType := by
  unfold ArrayBody.growIfFull
  split
  · exact gives_bind_any fun c => gives_pure ⟨rfl, rfl⟩
  · exact gives_ok ⟨rfl, rfl⟩

/-- What an array is before one more element goes into it. -/
theorem grown_spec (hu : a.Uniform) (hmismatch : ¬ a.mismatch v = true)
    (htakes : a.takes v = true) : Gives (a.adoptType v).growIfFull fun a' =>
      a'.items = a.items ∧ v.type = a'.elementType ∧ a'.Uniform ∧
        (v.type = a.elementType → a'.elementType = a.elementType) := by
  have hadopted : v.type = (a.adoptType v).elementType ∧ (a.adoptType v).Uniform ∧
      (v.type = a.elementType → (a.adoptType v).elementType = a.elementType) := by
    by_cases hsettles : a.elementType = .typeNil ∧ a.count = 0
    · have htype : (a.adoptType v).elementType = v.type := if_pos hsettles
      have hempty : (a.adoptType v).items = [] := by
        have hcount := hsettles.2
        rwa [ArrayBody.count, Int.natCast_eq_zero, List.length_eq_zero_iff] at hcount
      refine ⟨htype.symm, fun w hw => ?_, htype.trans⟩
      rw [hempty] at hw
      exact absurd hw List.not_mem_nil
    · have htype : (a.adoptType v).elementType = a.elementType := if_neg hsettles
      refine ⟨?_, fun w hw => (hu w hw).trans htype.symm, fun _ => htype⟩
      rcases type_of_not_mismatch hmismatch with hnil | heq
      · refine (type_of_takes hmismatch htakes fun hempty => hsettles ⟨hnil, ?_⟩).trans htype.symm
        rw [ArrayBody.count, hempty]
        rfl
      · exact heq.symm.trans htype.symm
  refine uniform_growIfFull.mono ?_
  rintro a' ⟨hitems, htype⟩
  refine ⟨hitems, htype ▸ hadopted.1, fun w hw => ?_, fun hv => htype.trans (hadopted.2.2 hv)⟩
  rw [htype]
  exact hadopted.2.1 w (hitems ▸ hw)

/-- An array stays uniform when all elements that it has afterwards have its type. -/
theorem uniform_of_items {items : List HeapValue} (hu : a.Uniform) (htype : v.type = a.elementType)
    (hitems : ∀ w ∈ items, w = v ∨ w ∈ a.items) :
    ArrayBody.Uniform { a with items := items } := by
  intro w hw
  rcases hitems w hw with rfl | hold
  · exact htype
  · exact hu w hold

theorem getArray_uniform (hu : h.Uniform) :
    Gives (h.getArray r) fun a => h.body r = some (.array a) ∧ a.Uniform :=
  getArray_spec.mono fun _ hbody => ⟨hbody, hu r _ hbody⟩

theorem takes_of_arrayTakes (hbody : h.body r = some (.array a)) :
    h.arrayTakes (some r) v = a.takes v := by
  simp [arrayTakes, hbody]

/-- An append, and the element type that the array has afterwards. -/
theorem arrayAppend_uniform (hu : h.Uniform) (r : Ref) (v : HeapValue)
    (htakes : h.arrayTakes (some r) v = true) :
    Gives (h.arrayAppend (some r) v) fun result => result.1.Uniform ∧
      ∀ a, h.body r = some (.array a) → v.type = a.elementType →
        ∃ a', result.1.body r = some (.array a') ∧ a'.elementType = a.elementType := by
  refine gives_bind (getArray_uniform hu) ?_
  rintro a ⟨hbody, hua⟩
  rw [takes_of_arrayTakes hbody] at htakes
  split
  · refine gives_pure ⟨hu, fun a' hbody' _ => ?_⟩
    exact ⟨a', hbody', rfl⟩
  · rename_i hmismatch
    refine gives_bind (grown_spec hua hmismatch htakes) ?_
    rintro a' ⟨hitems, htype, hua', hsame⟩
    refine gives_bind valueClone_body fun h₁ hsame₁ => ?_
    have hstored : ArrayBody.Uniform { a' with items := a'.items ++ [v] } := by
      refine uniform_of_items hua' htype fun w hw => ?_
      rcases List.mem_append.mp hw with hw | hw
      · exact .inr hw
      · exact .inl (List.mem_singleton.mp hw)
    refine gives_bind ((write_uniform (b := .array _) ((hu.same hsame₁).but r) hstored).and
      (write_body _)) ?_
    · rintro h₂ ⟨hu₂, hbody₂⟩
      refine gives_pure ⟨hu₂, fun a₀ hbody₀ hv => ⟨_, hbody₂, ?_⟩⟩
      rw [hbody] at hbody₀
      cases hbody₀
      exact hsame hv

theorem setItem_uniform {i : ℕ} (hu : h.Uniform) (hua : a.Uniform)
    (hmismatch : ¬ a.mismatch v = true) (htakes : a.takes v = true) :
    Gives (h.setItem r a i v) Uniform := by
  unfold setItem
  split
  · exact gives_error
  rename_i old hold
  have hne : a.items ≠ [] := by
    intro hempty
    rw [hempty] at hold
    cases hold
  refine replaceValue_uniform (hu.but r) ?_
  exact uniform_of_items hua (type_of_takes hmismatch htakes hne) fun w hw =>
    (List.mem_or_eq_of_mem_set hw).symm

theorem arraySet_uniform (hu : h.Uniform) (idx : ℤ) (v : HeapValue) :
    ∀ x, h.arraySetTakes x idx v = true → Gives (h.arraySet x idx v) fun result => result.1.Uniform
  | none, _ => gives_ok hu
  | some r, htakes => by
      refine gives_bind (getArray_uniform hu) ?_
      rintro a ⟨hbody, hua⟩
      split
      · exact gives_pure hu
      rename_i hin
      split
      · exact gives_pure hu
      · have hstores : a.takes v = true := by
          simp only [arraySetTakes, Option.bind_some, hbody, Bool.or_eq_true,
            decide_eq_true_eq] at htakes
          exact htakes.resolve_left hin
        exact gives_bind (setItem_uniform hu hua ‹_› hstores) fun h' hu' => gives_pure hu'

theorem arraySetSafe_uniform (hu : h.Uniform) (index : ℤ) (v : HeapValue) :
    ∀ x, h.arrayTakes x v = true →
      Gives (h.arraySetSafe x index v) fun result => result.1.Uniform
  | none, _ => gives_error
  | some r, htakes => by
      refine gives_bind (getArray_uniform hu) ?_
      rintro a ⟨hbody, hua⟩
      rw [takes_of_arrayTakes hbody] at htakes
      dsimp only
      split
      · exact gives_error
      split
      · exact gives_pure hu
      · exact gives_bind (setItem_uniform hu hua ‹_› htakes) fun h' hu' => gives_pure hu'

theorem arrayInsert_uniform (hu : h.Uniform) (v : HeapValue) (index : ℤ) :
    ∀ x, h.arrayTakes x v = true →
      Gives (h.arrayInsert x v index) fun result => result.1.Uniform
  | none, _ => gives_error
  | some r, htakes => by
      refine gives_bind (getArray_uniform hu) ?_
      rintro a ⟨hbody, hua⟩
      rw [takes_of_arrayTakes hbody] at htakes
      dsimp only
      split
      · exact gives_error
      split
      · exact gives_pure hu
      · rename_i hmismatch
        refine gives_bind (grown_spec hua hmismatch htakes) ?_
        rintro a' ⟨-, htype, hua', -⟩
        refine gives_bind valueClone_body fun h₁ hsame₁ => ?_
        refine gives_bind (write_uniform ((hu.same hsame₁).but r)
          (uniform_of_items hua' htype fun w hw => ?_)) fun h₂ hu₂ => gives_pure hu₂
        exact (List.eq_or_mem_of_mem_insertIdx hw)

theorem arrayRemoveAt_uniform (hu : h.Uniform) (index : ℤ) :
    ∀ x, Gives (h.arrayRemoveAt x index) fun result => result.2.Uniform
  | none => gives_error
  | some r => by
      refine gives_bind (getArray_uniform hu) ?_
      rintro a ⟨hbody, hua⟩
      dsimp only
      split
      · exact gives_error
      split
      · exact gives_error
      · refine gives_bind valueClone_body fun h₁ hsame₁ => ?_
        refine gives_bind (write_uniformBut ((hu.same hsame₁).but r)) fun h₂ hu₂ => ?_
        refine gives_bind (releaseRefs_shrinks _) fun h₃ hshrinks => ?_
        refine gives_bind (write_uniform (hu₂.shrinks hshrinks) ?_) fun h₄ hu₄ => gives_pure hu₄
        exact fun w hw => hua w (List.mem_of_mem_eraseIdx hw)

theorem storeItems_uniform (t : VarType) (vs : List HeapValue) (hvs : ∀ v ∈ vs, v.type = t)
    {a : ArrayBody} (hu : h.Uniform) (hua : a.Uniform) (ht : a.elementType = t) :
    Gives (h.storeItems r a vs) Uniform := by
  induction vs generalizing h a with
  | nil => exact gives_ok hu
  | cons v vs ih =>
      have hstored : ArrayBody.Uniform { a with items := a.items ++ [v] } := by
        refine uniform_of_items hua ((hvs v List.mem_cons_self).trans ht.symm) fun w hw => ?_
        rcases List.mem_append.mp hw with hw | hw
        · exact .inr hw
        · exact .inl (List.mem_singleton.mp hw)
      refine gives_bind valueClone_body fun h₁ hsame₁ => ?_
      refine gives_bind (write_uniform ((hu.same hsame₁).but r) hstored) fun h₂ hu₂ => ?_
      exact ih (fun w hw => hvs w (List.mem_cons_of_mem _ hw)) hu₂ hstored ht

theorem uniform_new (capacity : ℤ) (t : VarType) : (ArrayBody.new capacity t).Uniform :=
  fun _ hw => absurd hw List.not_mem_nil

theorem arrayFromLiteral_uniform (hu : h.Uniform) (elements : List HeapValue) :
    Gives (h.arrayFromLiteral elements) fun result => result.2.1.Uniform := by
  unfold arrayFromLiteral
  split
  · exact gives_ok hu
  · rename_i hsame
    have hnew := create_uniform hu (b := .array (.new elements.length (literalType elements)))
      (uniform_new _ _)
    refine gives_bind (storeItems_uniform (literalType elements) elements ?_ hnew
      (uniform_new _ _) rfl) fun h' hu' => gives_pure hu'
    intro v hv
    by_contra hne
    exact hsame (List.any_eq_true.mpr ⟨v, hv, bne_iff_ne.mpr hne⟩)

theorem arrayRepeating_uniform (hu : h.Uniform) (v : HeapValue) (count : ℤ) :
    Gives (h.arrayRepeating v count) fun result => result.2.Uniform := by
  unfold arrayRepeating
  split
  · exact gives_error
  · have hnew := create_uniform hu (b := .array (.new count v.type)) (uniform_new _ _)
    refine gives_bind (storeItems_uniform v.type _ (fun w hw => ?_) hnew (uniform_new _ _)
      rfl) fun h' hu' => gives_pure hu'
    rw [List.eq_of_mem_replicate hw]

end Arrays

/-! ### Dictionaries -/

section Tables

variable {h : ObjectHeap} {d : DictBody} {slot : ℕ} {e entry : HeapEntry} {key value : HeapValue}

/-- The entry has the types of a dictionary, if it is live. -/
def HasTypes (keyType valueType : VarType) (e : HeapEntry) : Prop :=
  e.isLive = true → e.key.type = keyType ∧ e.value.type = valueType

/-- Changing one member of a list changes how many satisfy a test by that member. -/
theorem countP_set_add {α : Type} {p : α → Bool} {l : List α} {i : ℕ} {a b : α}
    (ha : l[i]? = some a) :
    (l.set i b).countP p + (if p a then 1 else 0) = l.countP p + (if p b then 1 else 0) := by
  induction l generalizing i with
  | nil => cases ha
  | cons x l ih =>
      cases i with
      | zero =>
          cases ha
          rw [List.set_cons_zero, List.countP_cons, List.countP_cons]
          omega
      | succ i =>
          have hrest := ih (i := i) ha
          rw [List.set_cons_succ, List.countP_cons, List.countP_cons]
          omega

theorem countP_set_le {α : Type} (p : α → Bool) (l : List α) (i : ℕ) (b : α) :
    (l.set i b).countP p ≤ l.countP p + 1 := by
  cases ha : l[i]? with
  | none =>
      rw [List.set_eq_of_length_le (List.getElem?_eq_none_iff.mp ha)]
      exact Nat.le_succ _
  | some a =>
      have hadd := countP_set_add (p := p) (b := b) ha
      split at hadd <;> split at hadd <;> omega

theorem typed_setEntry (hd : d.Typed) (hentry : HasTypes d.keyType d.valueType entry) :
    (d.setEntry slot entry).Typed := by
  intro e he hlive
  rcases List.mem_or_eq_of_mem_set he with hold | rfl
  · exact hd e hold hlive
  · exact hentry hlive

theorem uniform_addEntry (hd : d.Uniform) (hentry : HasTypes d.keyType d.valueType entry) :
    (d.addEntry slot entry).Uniform := by
  refine ⟨typed_setEntry hd.typed hentry, ?_⟩
  have hle := countP_set_le HeapEntry.isLive d.entries slot entry
  have hcounted := hd.counted
  show ((d.entries.set slot entry).countP HeapEntry.isLive : ℤ) ≤ d.count + 1
  omega

/-- A new value for a live entry. -/
theorem uniform_setEntry_value (hd : d.Uniform) (he : d.entries[slot]? = some e)
    (hlive : e.isLive = true) (hvalue : value.type = d.valueType) :
    (d.setEntry slot { e with value := value }).Uniform := by
  have htypes := hd.typed e (List.mem_of_getElem? he) hlive
  refine ⟨typed_setEntry hd.typed fun _ => ⟨htypes.1, hvalue⟩, ?_⟩
  have hadd := countP_set_add (p := HeapEntry.isLive) (b := { e with value := value }) he
  have hlive' : HeapEntry.isLive { e with value := value } = true := hlive
  rw [if_pos hlive, if_pos hlive'] at hadd
  have hcounted := hd.counted
  show ((d.entries.set slot { e with value := value }).countP HeapEntry.isLive : ℤ) ≤ d.count
  omega

/-- A tombstone for a live entry. -/
theorem uniform_buried (hd : d.Uniform) (he : d.entries[slot]? = some e)
    (hlive : e.isLive = true) (hdead : entry.isLive = false) :
    DictBody.Uniform { d.setEntry slot entry with count := d.count - 1 } := by
  refine ⟨typed_setEntry hd.typed fun h => ?_, ?_⟩
  · rw [hdead] at h
    cases h
  · have hadd := countP_set_add (p := HeapEntry.isLive) (b := entry) he
    rw [if_pos hlive, if_neg (by rw [hdead]; decide)] at hadd
    have hcounted := hd.counted
    show ((d.entries.set slot entry).countP HeapEntry.isLive : ℤ) ≤ d.count - 1
    omega

theorem uniform_dict_new (capacity : ℤ) (keyType valueType : VarType) :
    (DictBody.new capacity keyType valueType).Uniform := by
  refine ⟨fun e he hlive => ?_, ?_⟩
  · rw [List.eq_of_mem_replicate he] at hlive
    cases hlive
  · rw [DictBody.new, List.countP_replicate]
    exact le_rfl

theorem uniform_cleared (d : DictBody) : d.cleared.Uniform := by
  have hdead : ∀ e ∈ d.cleared.entries, ¬ e.isLive = true := by
    intro e he
    obtain ⟨e', -, rfl⟩ := List.mem_map.mp he
    unfold DictBody.clearEntry
    split <;> exact Bool.false_ne_true
  refine ⟨fun e he hlive => absurd hlive (hdead e he), ?_⟩
  rw [List.countP_eq_zero.mpr hdead]
  exact le_rfl

/-- A dictionary that counts nothing has no live entry. -/
theorem not_live_of_count (hd : d.Uniform) (hcount : d.count = 0) :
    ∀ e ∈ d.entries, ¬ e.isLive = true := by
  have hcounted := hd.counted
  exact List.countP_eq_zero.mp (by omega)

theorem settled_type {expected : VarType} {v : HeapValue}
    (hmismatch : ¬ DictBody.mismatch expected v = true) (htakes : d.takes expected v = true) :
    v.type = if expected = .typeNil ∧ d.count = 0 then v.type else expected := by
  by_cases hsettles : expected = .typeNil ∧ d.count = 0
  · rw [if_pos hsettles]
  rw [if_neg hsettles]
  by_cases hnil : expected = .typeNil
  · have hcount : d.count ≠ 0 := fun hcount => hsettles ⟨hnil, hcount⟩
    simp only [DictBody.takes, hnil, bne_self_eq_false, Bool.false_or, Bool.or_eq_true,
      beq_iff_eq, hcount, false_or] at htakes
    rw [hnil, htakes]
  · by_contra hne
    exact hmismatch (by simp [DictBody.mismatch, hnil, Ne.symm hne])

/-- **Settling for the types of a pair** that the dictionary may take. -/
theorem adoptTypes_spec (hd : d.Uniform) (hkey : ¬ DictBody.mismatch d.keyType key = true)
    (hvalue : ¬ DictBody.mismatch d.valueType value = true)
    (htakes : d.takes d.keyType key = true ∧ d.takes d.valueType value = true) :
    (d.adoptTypes key value).Uniform ∧ key.type = (d.adoptTypes key value).keyType ∧
      value.type = (d.adoptTypes key value).valueType := by
  refine ⟨⟨fun e he hlive => ?_, hd.counted⟩, settled_type hkey htakes.1,
    settled_type hvalue htakes.2⟩
  by_cases hcount : d.count = 0
  · exact absurd hlive (not_live_of_count hd hcount e he)
  · have htypes := hd.typed e he hlive
    refine ⟨htypes.1.trans (if_neg fun h => hcount h.2).symm,
      htypes.2.trans (if_neg fun h => hcount h.2).symm⟩

/-- A table of the types of another one. -/
def SameTypes (d d' : DictBody) : Prop :=
  d'.Uniform ∧ d'.keyType = d.keyType ∧ d'.valueType = d.valueType

/-- **The loop of `bread_dict_resize`.**  The induction is on the old entries. -/
theorem resizeLoop_uniform (entries : List HeapEntry) {d : DictBody} (hd : d.Uniform)
    (hentries : ∀ e ∈ entries, HasTypes d.keyType d.valueType e) :
    Gives (h.resizeLoop entries d) (SameTypes d) := by
  induction entries generalizing d with
  | nil => exact gives_ok ⟨hd, rfl, rfl⟩
  | cons entry entries ih =>
      have hrest : ∀ e ∈ entries, HasTypes d.keyType d.valueType e :=
        fun e he => hentries e (List.mem_cons_of_mem _ he)
      unfold ObjectHeap.resizeLoop
      split
      · refine gives_bind_any fun found => ?_
        split
        · exact ih (uniform_addEntry hd (hentries entry List.mem_cons_self)) hrest
        · exact ih hd hrest
      · exact ih hd hrest

theorem growIfNeeded_uniform (hd : d.Uniform) : Gives (h.growIfNeeded d) (SameTypes d) := by
  unfold growIfNeeded
  split
  · refine gives_bind_any fun newCapacity => ?_
    split
    · exact gives_pure ⟨hd, rfl, rfl⟩
    · exact resizeLoop_uniform d.entries (d := d.emptied newCapacity) (uniform_dict_new _ _ _)
        fun e he => hd.typed e he
  · exact gives_ok ⟨hd, rfl, rfl⟩

/-- The loop of `bread_dict_set` that moves entries. -/
theorem compactLoop_uniform (entries : List HeapEntry) {d : DictBody} (hd : d.Uniform)
    (hentries : ∀ e ∈ entries, HasTypes d.keyType d.valueType e) :
    Gives (compactLoop entries d) (SameTypes d) := by
  induction entries generalizing d with
  | nil => exact gives_ok ⟨hd, rfl, rfl⟩
  | cons entry entries ih =>
      have hrest : ∀ e ∈ entries, HasTypes d.keyType d.valueType e :=
        fun e he => hentries e (List.mem_cons_of_mem _ he)
      unfold compactLoop
      split
      · refine gives_bind_any fun found => ?_
        split
        · exact ih (uniform_addEntry hd (hentries entry List.mem_cons_self)) hrest
        · exact ih hd hrest
      · exact ih hd hrest

end Tables

section Dictionaries

variable {h : ObjectHeap} {r : Ref} {d : DictBody} {slot : ℕ} {e : HeapEntry}
  {key value : HeapValue}

theorem getDict_uniform (hu : h.Uniform) :
    Gives (h.getDict r) fun d => h.body r = some (.dict d) ∧ d.Uniform :=
  getDict_spec.mono fun _ hbody => ⟨hbody, hu r _ hbody⟩

theorem takes_of_dictTakes {key : HeapValue} (hbody : h.body r = some (.dict d))
    (hkey : ¬ DictBody.mismatch d.keyType key = true)
    (hvalue : ¬ DictBody.mismatch d.valueType value = true)
    (htakes : h.dictTakes (some r) key value = true) :
    d.takes d.keyType key = true ∧ d.takes d.valueType value = true := by
  simpa [dictTakes, hbody, hkey, hvalue] using htakes

theorem setEntryValue_uniform (hu : h.Uniform) (hd : d.Uniform) (he : d.entries[slot]? = some e)
    (hlive : e.isLive = true) (hvalue : value.type = d.valueType) :
    Gives (h.setEntryValue r d slot e value) Uniform :=
  replaceValue_uniform (hu.but r) (uniform_setEntry_value hd he hlive hvalue)

theorem fillSlot_uniform (hu : h.Uniform) (hd : d.Uniform) (hkey : key.type = d.keyType)
    (hvalue : value.type = d.valueType) : Gives (h.fillSlot r d slot key value) Uniform := by
  refine gives_bind valueClone_body fun h₁ hsame₁ => ?_
  refine gives_bind valueClone_body fun h₂ hsame₂ => ?_
  exact write_uniform (((hu.same hsame₁).same hsame₂).but r)
    (uniform_addEntry hd fun _ => ⟨hkey, hvalue⟩)

theorem dictSetSafe_uniform (hu : h.Uniform) (key value : HeapValue) :
    ∀ x, h.dictTakes x key value = true →
      Gives (h.dictSetSafe x key value) fun result => result.1.Uniform
  | none, _ => gives_error
  | some r, htakes => by
      refine gives_bind (getDict_uniform hu) ?_
      rintro d ⟨hbody, hud⟩
      split
      · exact gives_pure hu
      rename_i hkey
      split
      · exact gives_pure hu
      rename_i hvalue
      obtain ⟨hadopted, hkt, hvt⟩ :=
        adoptTypes_spec hud hkey hvalue (takes_of_dictTakes hbody hkey hvalue htakes)
      refine gives_bind (growIfNeeded_uniform hadopted) ?_
      rintro d' ⟨hud', hk', hv'⟩
      refine gives_bind_any fun found => ?_
      split
      · exact gives_error
      refine gives_bind entryAt_spec fun e he => ?_
      split
      · exact gives_bind (setEntryValue_uniform hu hud' he ‹_› (hvt.trans hv'.symm))
          fun h' hu' => gives_pure hu'
      · exact gives_bind (fillSlot_uniform hu hud' (hkt.trans hk'.symm) (hvt.trans hv'.symm))
          fun h' hu' => gives_pure hu'

theorem insertFirstFree_uniform {k : Ref} (hu : h.Uniform) (hd : d.Uniform)
    (hkey : VarType.typeString = d.keyType) (hvalue : value.type = d.valueType) :
    Gives (h.insertFirstFree r k d value) fun result => result.1.Uniform := by
  refine gives_bind_any fun found => ?_
  split
  · refine gives_bind valueClone_body fun h₁ hsame₁ => ?_
    refine gives_bind (write_uniform (b := .dict _) ((hu.same hsame₁).but r)
      (uniform_addEntry hd fun _ => ⟨hkey, hvalue⟩)) fun h₂ hu₂ => gives_pure hu₂
  · refine gives_bind (write_uniform (b := .dict _) (hu.but r) hd) fun h₁ hu₁ => ?_
    exact gives_bind (releaseRefs_uniform hu₁ _) fun h₂ hu₂ => gives_pure hu₂

theorem live_of_holdsString {key : BreadString} (hholds : h.holdsString key e = .ok true) :
    e.isLive = true := by
  unfold holdsString at hholds
  split at hholds
  · assumption
  · cases hholds

theorem dictSet_uniform (hu : h.Uniform) (r : Ref) (key : BreadString) (value : HeapValue)
    (htakes : h.dictTakes (some r) (.string none) value = true) :
    Gives (h.dictSet r key value) fun result => result.1.Uniform := by
  have hu₀ : (h.stringNew (cString key)).2.Uniform := create_uniform hu trivial
  unfold dictSet
  dsimp only
  refine gives_bind (getDict_uniform hu₀) ?_
  rintro d ⟨hbody, hud⟩
  have hrelease : ∀ {h' : ObjectHeap} (rs : List Ref) (result : Bool), h'.Uniform →
      Gives (do return (← h'.releaseRefs rs, result) : Exec (ObjectHeap × Bool))
        fun result => result.1.Uniform :=
    fun rs _ hu' => gives_bind (releaseRefs_uniform hu' rs) fun h₂ hu₂ => gives_pure hu₂
  split
  · exact hrelease _ _ hu₀
  rename_i hkey
  split
  · exact hrelease _ _ hu₀
  rename_i hvalue
  have htakes' : d.takes d.keyType (.string (some (h.stringNew (cString key)).1)) = true ∧
      d.takes d.valueType value = true := by
    have hkey' : ¬ DictBody.mismatch d.keyType (.string none) = true := hkey
    refine takes_of_dictTakes ?_ hkey' hvalue htakes
    have hne : r ≠ h.size := by
      rintro rfl
      have hstring : (h.stringNew (cString key)).2.body h.size = some (.string (cString key)) :=
        body_create h _
      rw [hstring] at hbody
      cases hbody
    simpa [stringNew, create, Heap.alloc, hne] using hbody
  obtain ⟨hadopted, hkt, hvt⟩ := adoptTypes_spec hud hkey hvalue htakes'
  refine gives_bind (scan_spec _ _) fun found hfound => ?_
  split
  · rename_i slot
    refine gives_bind entryAt_spec fun e he => ?_
    have hlive : e.isLive = true := by
      obtain ⟨k, e', hslot, he', htest⟩ := hfound.1 slot rfl
      rw [Nat.zero_add] at hslot
      subst hslot
      rw [he'] at he
      cases he
      exact live_of_holdsString htest
    refine gives_bind (setEntryValue_uniform hu₀ hadopted he hlive hvt) fun h₁ hu₁ => ?_
    exact hrelease _ _ hu₁
  · split
    · refine gives_bind_any fun newCapacity => ?_
      split
      · refine gives_bind (write_uniform (b := .dict _) (hu₀.but r) hadopted) fun h₁ hu₁ => ?_
        exact hrelease _ _ hu₁
      · refine gives_bind (compactLoop_uniform _ (uniform_dict_new _ _ _)
          fun e he => hadopted.typed e he) ?_
        rintro d' ⟨hud', hk', hv'⟩
        exact insertFirstFree_uniform hu₀ hud' (hkt.trans hk'.symm) (hvt.trans hv'.symm)
    · exact insertFirstFree_uniform hu₀ hadopted hkt hvt

theorem dictRemove_uniform (hu : h.Uniform) (key : HeapValue) :
    ∀ x, Gives (h.dictRemove x key) fun result => result.2.Uniform
  | none => gives_error
  | some r => by
      refine gives_bind (getDict_uniform hu) ?_
      rintro d ⟨hbody, hud⟩
      split
      · exact gives_pure hu
      refine gives_bind_any fun found => ?_
      split
      · exact gives_pure hu
      refine gives_bind entryAt_spec fun e he => ?_
      split
      · rename_i hlive
        refine gives_bind valueClone_body fun h₁ hsame₁ => ?_
        refine gives_bind (write_uniformBut ((hu.same hsame₁).but r)) fun h₂ hu₂ => ?_
        refine gives_bind (releaseRefs_shrinks _) fun h₃ hshrinks₃ => ?_
        refine gives_bind (releaseRefs_shrinks _) fun h₄ hshrinks₄ => ?_
        refine gives_bind (write_uniform (b := .dict _)
          ((hu₂.shrinks hshrinks₃).shrinks hshrinks₄) (uniform_buried hud he hlive rfl))
          fun h₅ hu₅ => gives_pure hu₅
      · exact gives_pure hu

theorem dictClear_uniform (hu : h.Uniform) : ∀ x, Gives (h.dictClear x) Uniform
  | none => gives_ok hu
  | some r => by
      refine gives_bind (getDict_uniform hu) ?_
      rintro d ⟨hbody, hud⟩
      refine gives_bind (write_uniform (b := .dict _) (hu.but r) (uniform_cleared d))
        fun h₁ hu₁ => ?_
      refine gives_bind (releaseRefs_uniform hu₁ _) fun h₂ hu₂ => ?_
      exact write_uniform (hu₂.but r) (uniform_cleared d)

theorem storePairs_uniform (pairs : List (HeapValue × HeapValue)) (hu : h.Uniform)
    (hd : d.Uniform) (hpairs : ∀ p ∈ pairs, p.1.type = d.keyType ∧ p.2.type = d.valueType) :
    Gives (h.storePairs r d pairs) Uniform := by
  induction pairs generalizing h d with
  | nil => exact gives_ok hu
  | cons pair pairs ih =>
      obtain ⟨key, value⟩ := pair
      have htypes := hpairs (key, value) List.mem_cons_self
      have hrest : ∀ p ∈ pairs, p.1.type = d.keyType ∧ p.2.type = d.valueType :=
        fun p hp => hpairs p (List.mem_cons_of_mem _ hp)
      unfold storePairs
      refine gives_bind_any fun found => ?_
      split
      · refine gives_bind (fillSlot_uniform hu hd htypes.1 htypes.2) fun h₁ hu₁ => ?_
        exact ih hu₁ (uniform_addEntry hd fun _ => htypes) hrest
      · exact ih hu hd hrest

theorem types_of_literalMismatch {keyType valueType : VarType}
    {pairs : List (HeapValue × HeapValue)} (hnone : literalMismatch keyType valueType pairs = none) :
    ∀ p ∈ pairs, p.1.type = keyType ∧ p.2.type = valueType := by
  induction pairs with
  | nil => exact fun p hp => absurd hp List.not_mem_nil
  | cons pair pairs ih =>
      obtain ⟨key, value⟩ := pair
      unfold literalMismatch at hnone
      split at hnone
      · cases hnone
      split at hnone
      · cases hnone
      rename_i hkey hvalue
      intro p hp
      rcases List.mem_cons.mp hp with rfl | hp
      · exact ⟨not_not.mp hkey, not_not.mp hvalue⟩
      · exact ih hnone p hp

theorem dictFromLiteral_uniform (hu : h.Uniform) (pairs : List (HeapValue × HeapValue)) :
    Gives (h.dictFromLiteral pairs) fun result => result.2.1.Uniform := by
  unfold dictFromLiteral
  dsimp only
  split
  · exact gives_ok hu
  · rename_i hnone
    refine gives_bind_any fun capacity => ?_
    refine gives_bind (storePairs_uniform pairs (create_uniform hu (uniform_dict_new _ _ _))
      (uniform_dict_new _ _ _) (types_of_literalMismatch hnone)) fun h' hu' => gives_pure hu'

/-- The values of one type that `bread_dict_keys` and `bread_dict_values` collect. -/
theorem collectLoop_uniform {a : Ref} {t : VarType} (vs : List HeapValue)
    (hvs : ∀ v ∈ vs, v.type = t) (hu : h.Uniform) {body : ArrayBody}
    (hbody : h.body a = some (.array body)) (ht : body.elementType = t) :
    Gives (h.collectLoop a vs) fun result => result.2.Uniform := by
  induction vs generalizing h body with
  | nil => exact gives_ok hu
  | cons v vs ih =>
      have hv : v.type = body.elementType := (hvs v List.mem_cons_self).trans ht.symm
      have htakes : h.arrayTakes (some a) v = true := by
        rw [takes_of_arrayTakes hbody, ArrayBody.takes, ← hv]
        cases v.type <;> simp
      refine gives_bind (arrayAppend_uniform hu a v htakes) ?_
      rintro ⟨h₁, appended⟩ ⟨hu₁, hkept⟩
      obtain ⟨body', hbody', htype'⟩ := hkept body hbody hv
      cases appended with
      | true => exact ih (fun w hw => hvs w (List.mem_cons_of_mem _ hw)) hu₁ hbody' (htype'.trans ht)
      | false => exact gives_bind (releaseRefs_uniform hu₁ _) fun h₂ hu₂ => gives_pure hu₂

theorem dictKeys_uniform (hu : h.Uniform) : ∀ x, Gives (h.dictKeys x) fun result => result.2.Uniform
  | none => gives_ok hu
  | some r => by
      refine gives_bind (getDict_uniform hu) ?_
      rintro d ⟨hbody, hud⟩
      refine collectLoop_uniform _ ?_ (create_uniform hu (uniform_new 0 d.keyType))
        (body_create h _) rfl
      intro v hv
      obtain ⟨e, he, rfl⟩ := List.mem_map.mp hv
      exact (hud.typed e (List.mem_of_mem_filter he) (List.mem_filter.mp he).2).1

theorem dictValues_uniform (hu : h.Uniform) :
    ∀ x, Gives (h.dictValues x) fun result => result.2.Uniform
  | none => gives_ok hu
  | some r => by
      refine gives_bind (getDict_uniform hu) ?_
      rintro d ⟨hbody, hud⟩
      refine collectLoop_uniform _ ?_ (create_uniform hu (uniform_new 0 d.valueType))
        (body_create h _) rfl
      intro v hv
      obtain ⟨e, he, rfl⟩ := List.mem_map.mp hv
      exact (hud.typed e (List.mem_of_mem_filter he) (List.mem_filter.mp he).2).2

end Dictionaries

/-! ### Operations -/

section Operations

variable {h : ObjectHeap}

theorem optionalNewSome_uniform (hu : h.Uniform) (v : HeapValue) :
    Gives (h.optionalNewSome v) fun result => result.2.Uniform := by
  have hu₀ : (h.create (.optional (some .nil))).2.Uniform := create_uniform hu trivial
  refine gives_bind valueClone_body fun h₁ hsame₁ => ?_
  exact gives_bind (write_uniform (b := .optional _) ((hu₀.same hsame₁).but _) trivial)
    fun h₂ hu₂ => gives_pure hu₂

theorem structSetField_uniform (hu : h.Uniform) (name : Ident) (v : HeapValue) :
    ∀ x, Gives (h.structSetField x name v) Uniform
  | none => gives_ok hu
  | some r => by
      unfold structSetField
      dsimp only
      split
      · split
        · exact gives_ok hu
        split
        · exact gives_error
        · exact replaceValue_uniform (hu.but r) trivial
      · exact gives_error

theorem classSetField_uniform (hu : h.Uniform) (name : Ident) (v : HeapValue) :
    ∀ x, Gives (h.classSetField x name v) Uniform
  | none => gives_ok hu
  | some r => by
      unfold classSetField
      dsimp only
      split
      · split
        · exact gives_ok hu
        split
        · exact gives_error
        · exact replaceValue_uniform (hu.but r) trivial
      · exact gives_error

theorem setFieldsByPosition_uniform {r : Ref} (names : List Ident) (args : List HeapValue)
    (hu : h.Uniform) : Gives (h.setFieldsByPosition r names args) Uniform := by
  induction names generalizing h args with
  | nil => exact gives_ok hu
  | cons name names ih =>
      cases args with
      | nil => exact gives_ok hu
      | cons v vs => exact gives_bind (classSetField_uniform hu name v _) fun h' hu' => ih vs hu'

theorem classExecuteConstructor_uniform (hu : h.Uniform) (r : Ref) (args : List HeapValue) :
    Gives (h.classExecuteConstructor r args) Uniform := by
  unfold classExecuteConstructor
  split
  · exact setFieldsByPosition_uniform _ _ hu
  · exact gives_error

/-- **One operation on the heap** keeps the collections homogeneous. -/
theorem perform_uniform (hu : h.Uniform) (op : HeapOp) (hop : h.performUniform op = true) :
    Gives (h.perform op) fun result => result.2.Uniform := by
  cases op with
  | valueClone v => exact gives_bind valueClone_body fun h' hsame => gives_pure (hu.same hsame)
  | stringNew data => exact gives_ok (create_uniform hu trivial)
  | stringConcat a b =>
      refine gives_bind (P := fun result => result.2.Uniform) ?_ fun _ hu' => gives_pure hu'
      exact gives_bind_any fun left => gives_bind_any fun right =>
        gives_pure (create_uniform hu trivial)
  | arrayNew capacity elementType => exact gives_ok (create_uniform hu (uniform_new _ _))
  | arrayFromLiteral elements =>
      exact gives_bind (arrayFromLiteral_uniform hu elements) fun _ hu' => gives_pure hu'
  | arrayRepeating v count =>
      exact gives_bind (arrayRepeating_uniform hu v count) fun _ hu' => gives_pure hu'
  | arrayAppend a v =>
      refine gives_bind (P := fun result => result.1.Uniform) ?_ fun _ hu' => gives_pure hu'
      cases a with
      | none => exact gives_ok hu
      | some r => exact (arrayAppend_uniform hu r v hop).mono fun _ hu' => hu'.1
  | arraySet a idx v =>
      exact gives_bind (arraySet_uniform hu idx v a hop) fun _ hu' => gives_pure hu'
  | arraySetSafe a index v =>
      exact gives_bind (arraySetSafe_uniform hu index v a hop) fun _ hu' => gives_pure hu'
  | arrayInsert a v index =>
      exact gives_bind (arrayInsert_uniform hu v index a hop) fun _ hu' => gives_pure hu'
  | arrayRemoveAt a index =>
      exact gives_bind (arrayRemoveAt_uniform hu index a) fun _ hu' => gives_pure hu'
  | dictNew capacity keyType valueType =>
      exact gives_ok (create_uniform hu (uniform_dict_new _ _ _))
  | dictFromLiteral pairs =>
      exact gives_bind (dictFromLiteral_uniform hu pairs) fun _ hu' => gives_pure hu'
  | dictSetSafe d key value =>
      exact gives_bind (dictSetSafe_uniform hu key value d hop) fun _ hu' => gives_pure hu'
  | dictSet r key value =>
      exact gives_bind (dictSet_uniform hu r key value hop) fun _ hu' => gives_pure hu'
  | dictRemove d key =>
      exact gives_bind (dictRemove_uniform hu key d) fun _ hu' => gives_pure hu'
  | dictClear d => exact gives_bind (dictClear_uniform hu d) fun _ hu' => gives_pure hu'
  | dictKeys d => exact gives_bind (dictKeys_uniform hu d) fun _ hu' => gives_pure hu'
  | dictValues d => exact gives_bind (dictValues_uniform hu d) fun _ hu' => gives_pure hu'
  | valueDictKeysAsValue v =>
      refine gives_bind (P := fun result => result.2.Uniform) ?_ fun _ hu' => gives_pure hu'
      cases v with
      | dict d =>
          refine gives_bind (dictKeys_uniform hu d) ?_
          rintro ⟨keys, h₁⟩ hu₁
          cases keys with
          | none => exact gives_pure hu₁
          | some keys =>
              exact gives_bind objectRetain_body fun h₂ hsame => gives_pure (hu₁.same hsame)
      | _ => exact gives_ok hu
  | dictGetWithDefault d key default =>
      refine gives_bind (P := fun result => result.2.Uniform) ?_ fun _ hu' => gives_pure hu'
      cases d with
      | none => exact gives_error
      | some r =>
          have hclone : ∀ v : HeapValue, Gives (do return (v, ← h.valueClone v) :
              Exec (HeapValue × ObjectHeap)) fun result => result.2.Uniform :=
            fun v => gives_bind valueClone_body fun h' hsame => gives_pure (hu.same hsame)
          refine gives_bind_any fun d => ?_
          split
          · exact hclone _
          refine gives_bind_any fun found => ?_
          split
          · exact hclone _
          · exact gives_bind_any fun entry => hclone _
  | optionalNewNone => exact gives_ok (create_uniform hu trivial)
  | optionalNewSome v =>
      exact gives_bind (optionalNewSome_uniform hu v) fun _ hu' => gives_pure hu'
  | structNew typeName fieldNames => exact gives_ok (create_uniform hu trivial)
  | structSetField s name v =>
      exact gives_bind (structSetField_uniform hu name v s) fun _ hu' => gives_pure hu'
  | classNew className parentName fieldNames methodNames =>
      exact gives_ok (create_uniform hu trivial)
  | classSetField c name v =>
      exact gives_bind (classSetField_uniform hu name v c) fun _ hu' => gives_pure hu'
  | classExecuteConstructor r args =>
      exact gives_bind (classExecuteConstructor_uniform hu r args) fun _ hu' => gives_pure hu'

end Operations

end ObjectHeap

/-! ### Runs -/

namespace ObjectState

/-- A step stores no other value into a collection of nils. -/
def StepUniform (s : ObjectState) : ObjectOp → Prop
  | .onHeap op => s.heap.performUniform op = true
  | _ => True

instance (s : ObjectState) : ∀ op, Decidable (s.StepUniform op)
  | .onHeap op => inferInstanceAs (Decidable (s.heap.performUniform op = true))
  | .release _ => .isTrue trivial
  | .stringNewLiteral _ => .isTrue trivial
  | .stringInternCleanup => .isTrue trivial
  | .classCreateInstance _ _ _ _ => .isTrue trivial

section Runs

variable {s : ObjectState}

theorem stringNewLiteral_uniform (hu : s.heap.Uniform) (cstr : BreadString) :
    Gives (s.stringNewLiteral cstr) fun result => result.2.heap.Uniform := by
  unfold stringNewLiteral
  dsimp only
  refine gives_bind_any fun same => ?_
  split
  · exact gives_bind ObjectHeap.objectRetain_body fun h' hsame => gives_pure (hu.same hsame)
  · have hu₀ : (s.heap.stringNew (cString cstr)).2.Uniform :=
      ObjectHeap.create_uniform hu trivial
    refine gives_bind (ObjectHeap.releaseRefs_uniform hu₀ _) fun h₁ hu₁ => ?_
    exact gives_bind ObjectHeap.objectRetain_body fun h₂ hsame => gives_pure (hu₁.same hsame)

theorem classCreateInstance_uniform (hu : s.heap.Uniform) (className : Ident)
    (parentName : Option Ident) (fieldNames methodNames : List Ident) :
    Gives (s.classCreateInstance className parentName fieldNames methodNames) fun result =>
      result.2.heap.Uniform := by
  unfold classCreateInstance
  split
  · exact gives_ok (ObjectHeap.create_uniform hu trivial)
  · refine gives_bind_any fun names => ?_
    dsimp only
    split
    · exact gives_pure (ObjectHeap.create_uniform hu trivial)
    · refine gives_bind (retainDefinition_frame _) ?_
      rintro s' ⟨hheap, -, -⟩
      refine gives_pure ?_
      rw [hheap]
      exact ObjectHeap.create_uniform hu trivial

/-- **One step** keeps the collections homogeneous. -/
theorem step_uniform (hu : s.heap.Uniform) (op : ObjectOp) (hop : s.StepUniform op) :
    Gives (s.step op) fun result => result.1.heap.Uniform := by
  cases op with
  | onHeap op =>
      exact gives_bind (ObjectHeap.perform_uniform hu op hop) fun _ hu' => gives_pure hu'
  | release v =>
      exact gives_bind (ObjectHeap.releaseRefs_uniform hu _) fun _ hu' => gives_pure hu'
  | stringNewLiteral cstr =>
      exact gives_bind (stringNewLiteral_uniform hu cstr) fun _ hu' => gives_pure hu'
  | stringInternCleanup =>
      refine gives_bind (P := fun s' => s'.heap.Uniform) ?_ fun _ hu' => gives_pure hu'
      exact gives_bind (ObjectHeap.releaseRefs_uniform hu _) fun _ hu' => gives_pure hu'
  | classCreateInstance className parentName fieldNames methodNames =>
      exact gives_bind (classCreateInstance_uniform hu className parentName fieldNames methodNames)
        fun _ hu' => gives_pure hu'

/-- Every array and every dictionary of the heap is homogeneous. -/
def Homogeneous (s : ObjectState) : Prop :=
  (∀ r a, s.heap.body r = some (.array a) → ∀ v ∈ a.items, v.type = a.elementType) ∧
  ∀ r d, s.heap.body r = some (.dict d) → ∀ e ∈ d.entries, e.isLive = true →
    e.key.type = d.keyType ∧ e.value.type = d.valueType

/-- **Collections stay homogeneous** in every run that stores no other value into a
collection of nils. -/
theorem collections_homogeneous (definitions : List ClassDefinition) (ops : List ObjectOp)
    (s : ObjectState) (rs : List (List HeapValue))
    (hrun : Run.run step (init definitions) ops = .ok (s, rs))
    (hguard : Run.Guarded step StepUniform (init definitions) ops) : s.Homogeneous := by
  have hu : s.heap.Uniform := Run.run_preserves (fun s => s.heap.Uniform) ops
    (fun s op hu hop s' r hstep => step_uniform hu op hop (s', r) hstep) _ _ _
    (fun r b hb => nomatch hb) hguard hrun
  exact ⟨fun r a hbody => hu r _ hbody, fun r d hbody => (hu r _ hbody).typed⟩

end Runs

/-! ### Two collections -/

/-- An array of integers, and a dictionary from integers to arrays. -/
def mixedOps : List ObjectOp :=
  [.onHeap (.arrayNew 0 .typeNil),
    .onHeap (.arrayAppend (some 0) (.int 1)),
    .onHeap (.arrayInsert (some 0) (.int 2) 0),
    .onHeap (.dictNew 0 .typeNil .typeNil),
    .onHeap (.dictSetSafe (some 1) (.int 1) (.array (some 0))),
    .onHeap (.dictSetSafe (some 1) (.bool true) .nil)]

theorem mixed_homogeneous : ∃ s rs, Run.run step (init []) mixedOps = .ok (s, rs) ∧
    s.Homogeneous := by
  have hguard : Run.Guarded step StepUniform (init []) mixedOps := by decide +kernel
  have hend : (Run.run step (init []) mixedOps).isOk = true := by decide +kernel
  cases hrun : Run.run step (init []) mixedOps with
  | error e =>
      rw [hrun] at hend
      cases hend
  | ok result => exact ⟨_, _, rfl, collections_homogeneous [] mixedOps _ _ hrun hguard⟩

/-- **An array of nils takes an integer.** -/
theorem nils_take_integer : ∃ s rs, Run.run step (init [])
    [.onHeap (.arrayNew 0 .typeNil), .onHeap (.arrayAppend (some 0) .nil),
      .onHeap (.arrayAppend (some 0) (.int 1))] = .ok (s, rs) ∧ ¬ s.Homogeneous := by
  refine ⟨_, _, rfl, fun hhomogeneous => ?_⟩
  have htype := hhomogeneous.1 0 ⟨8, .typeNil, [.nil, .int 1]⟩ rfl (.int 1) (by simp)
  cases htype

end ObjectState

end BreadLang
