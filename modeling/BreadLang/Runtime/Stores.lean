import BreadLang.Runtime.AssignedObjects
import BreadLang.Runtime.ReferencesConserved

/-!
# Stores of a value into a slot

The eight functions that put a value where another one may be: into an array, a
dictionary, a struct, an instance, or a `BreadValue` of the caller.  Seven of them release
the old value before they retain the new one, so what the new one refers to has to be held
by something else than the old one; `bread_value_assign` retains first.

`Setter.place` says which slot a call stores to.  `store_safe_iff` says when the store is
safe: the value is in the slot, its object is alive, and its count is that of the
references that there are.
-/

namespace BreadLang

open RefCount

/-! ### Stores to a slot of the caller -/

namespace ObjectHeap

/-- `bread_value_copy`, on two different pointers.  `source` is the object that `in` points
into, if it is not a slot of the caller; the value is read after the release. -/
def valueCopy (h : ObjectHeap) (source : Option Ref) (v out : HeapValue) :
    Exec (ObjectHeap × HeapValue) := do
  let h ← h.valueRelease out
  if source.any fun y => (h.body y).isNone then .error (.undefined .useAfterFree)
  else
    let h ← h.valueClone v
    return (h, v)

/-- `bread_value_assign`, on two different pointers. -/
def valueAssign (h : ObjectHeap) (target v : HeapValue) : Exec (ObjectHeap × HeapValue) := do
  let h ← h.valueClone v
  let h ← h.valueRelease target
  return (h, v)

end ObjectHeap

/-! ### Setters -/

/-- The objects, and the slot of the caller that `bread_value_copy` and
`bread_value_assign` store to. -/
structure StoreState where
  heap : ObjectHeap
  slot : HeapValue

/-- A call of a setter, without the value. -/
inductive Setter where
  | arraySet (a : Ref) (idx : ℤ)
  | arraySetSafe (a : Ref) (index : ℤ)
  | dictSet (d : Ref) (key : BreadString)
  | dictSetSafe (d : Ref) (key : HeapValue)
  | structSetField (s : Ref) (name : Ident)
  | classSetField (c : Ref) (name : Ident)
  | valueCopy (source : Option Ref)
  | valueAssign

/-- Call a setter.  The result is whether it returned 1; the setters of fields return
nothing. -/
def Setter.perform (s : StoreState) (v : HeapValue) : Setter → Exec (StoreState × Bool)
  | .arraySet a idx => do
      let (h, stored) ← s.heap.arraySet (some a) idx v
      return ({ s with heap := h }, stored)
  | .arraySetSafe a index => do
      let (h, result) ← s.heap.arraySetSafe (some a) index v
      return ({ s with heap := h }, result.isOk)
  | .dictSet d key => do
      let (h, stored) ← s.heap.dictSet d key v
      return ({ s with heap := h }, stored)
  | .dictSetSafe d key => do
      let (h, result) ← s.heap.dictSetSafe (some d) key v
      return ({ s with heap := h }, result.isOk)
  | .structSetField r name => do
      return ({ s with heap := ← s.heap.structSetField (some r) name v }, true)
  | .classSetField c name => do
      return ({ s with heap := ← s.heap.classSetField (some c) name v }, true)
  | .valueCopy source => do
      let (h, slot) ← s.heap.valueCopy source v s.slot
      return (⟨h, slot⟩, true)
  | .valueAssign => do
      let (h, slot) ← s.heap.valueAssign s.slot v
      return (⟨h, slot⟩, true)

/-! ### Places -/

/-- The place that a store goes to: a slot of an object, or the slot of the caller, with
the value in it, which is nil for a new entry of a dictionary.  `key` is the value that is
retained as the key of a new entry. -/
structure Place where
  holder : Option (Ref × ℕ)
  old : HeapValue
  key : HeapValue

/-- The value in a slot of an object. -/
def ObjectBody.valueAt : ObjectBody → ℕ → Option HeapValue
  | .array a, i => a.items[i]?
  | .dict d, i => d.entries[i]?.bind fun entry => if entry.isLive then some entry.value else none
  | .struct s, i => s.fieldValues[i]?
  | .instance c, i => c.fieldValues[i]?
  | .string _, _ => none
  | .optional _, _ => none

/-- The value at a place. -/
def StoreState.valueAt (s : StoreState) (place : Place) : Option HeapValue :=
  match place.holder with
  | some (r, i) => (s.heap.body r).bind fun b => b.valueAt i
  | none => some s.slot

namespace ObjectHeap

/-- The place of a field. -/
def fieldPlace (r : Ref) (names : List Ident) (values : List HeapValue) (name : Ident) :
    Option Place := do
  let index ← findFieldIndex names name
  let old ← values[index]?
  return ⟨some (r, index), old, .nil⟩

/-- The place of an element. -/
def itemPlace (r : Ref) (a : ArrayBody) (index : ℤ) (v : HeapValue) : Option Place := do
  if index < 0 ∨ a.count ≤ index ∨ a.mismatch v then none
  else
    let old ← a.items[index.toNat]?
    return ⟨some (r, index.toNat), old, .nil⟩

/-- The slot that `bread_dict_set_safe` finds, in a table that has grown. -/
def probedPlace (h : ObjectHeap) (r : Ref) (d : DictBody) (key v : HeapValue) :
    Exec (Option Place) := do
  if DictBody.mismatch d.keyType key || DictBody.mismatch d.valueType v then return none
  else
    let d ← h.growIfNeeded (d.adoptTypes key v)
    match ← h.findSlot d key with
    | none => return none
    | some slot =>
        let entry ← d.entryAt slot
        return some ⟨some (r, slot), if entry.isLive then entry.value else .nil,
          if entry.isLive then .nil else key⟩

/-- The slot that `bread_dict_set` finds or makes free. -/
def scannedPlace (h : ObjectHeap) (r : Ref) (key : BreadString) (v : HeapValue) :
    Exec (Option Place) := do
  let (k, h) := h.stringNew (cString key)
  let d ← h.getDict r
  if DictBody.mismatch d.keyType (.string (some k)) || DictBody.mismatch d.valueType v then
    return none
  else
    let d := d.adoptTypes (.string (some k)) v
    let newPlace (d : DictBody) : Exec (Option Place) := do
      let found ← scan (fun e => .ok (!e.isOccupied || e.isDeleted)) 0 d.entries
      return found.map fun slot => ⟨some (r, slot), .nil, .nil⟩
    match ← scan (h.holdsString key) 0 d.entries with
    | some slot =>
        let entry ← d.entryAt slot
        return some ⟨some (r, slot), entry.value, .nil⟩
    | none =>
        if d.header.loadReached then
          let newCapacity ← d.header.grownCapacity
          if newCapacity < 0 then return none
          else newPlace (← compactLoop d.entries (d.emptied newCapacity))
        else newPlace d

end ObjectHeap

/-- The place that a call stores to, or none when it refuses the value. -/
def Setter.place (s : StoreState) (v : HeapValue) : Setter → Exec (Option Place)
  | .arraySet a idx => do return ObjectHeap.itemPlace a (← s.heap.getArray a) idx v
  | .arraySetSafe a index => do
      let body ← s.heap.getArray a
      return ObjectHeap.itemPlace a body (body.resolve index) v
  | .dictSet d key => s.heap.scannedPlace d key v
  | .dictSetSafe d key => do s.heap.probedPlace d (← s.heap.getDict d) key v
  | .structSetField r name =>
      match s.heap.body r with
      | some (.struct b) => .ok (ObjectHeap.fieldPlace r b.fieldNames b.fieldValues name)
      | _ => .ok none
  | .classSetField c name =>
      match s.heap.body c with
      | some (.instance b) => .ok (ObjectHeap.fieldPlace c b.fieldNames b.fieldValues name)
      | _ => .ok none
  | .valueCopy _ | .valueAssign => .ok (some ⟨none, s.slot, .nil⟩)

/-! ### Safe stores -/

/-- **A safe store.**  The value is in the slot and its object is alive.  Its count has grown
by the new reference, and by that of a new key; it has lost those that the old value gave
up, itself or with the objects that went with it. -/
structure StoredSafely (s s' : StoreState) (place : Place) (v : HeapValue) : Prop where
  slot : s'.valueAt place = some v
  alive : ∀ x ∈ v.refs, s'.heap.body x ≠ none
  counted : ∀ x ∈ v.refs,
    s'.heap.count x + place.old.refs.count x +
        s.heap.goneWith ObjectBody.children s'.heap x =
      s.heap.count x + 1 + place.key.refs.count x

/-- An object is held without the references that a slot of `r` gives up. -/
def HeldWithout (h : ObjectHeap) (owed : List Ref) (r : Ref) (old : HeapValue) (x : Ref) : Prop :=
  h.HeldWithout ObjectBody.children (fun y => owed.count y) r old.refs x

/-- **What a store needs.**  The object with the slot and the object of the new value are held
without the old value.  `bread_value_copy` needs that of the object it copies from, and
`bread_value_assign` needs nothing. -/
def Setter.Safe (s : StoreState) (owed : List Ref) (place : Place) (v : HeapValue)
    (op : Setter) : Prop :=
  match place.holder, op with
  | some (r, _), _ =>
      HeldWithout s.heap (s.slot.refs ++ owed) r place.old r ∧
        ∀ x ∈ v.refs, HeldWithout s.heap (s.slot.refs ++ owed) r place.old x
  | none, .valueCopy source =>
      (∀ y ∈ source, s.heap.Held ObjectBody.children (fun x => owed.count x) y) ∧
        ∀ x ∈ v.refs, s.heap.Held ObjectBody.children (fun x => owed.count x) x
  | none, _ => True

section Replace

variable {h h₁ h' : ObjectHeap} {owed lost rs : List Ref} {r x : Ref}
  {b emptied filled : ObjectBody} {old new v : HeapValue}

theorem mem_refs_iff : x ∈ v.refs ↔ v.ref? = some x := by
  rw [HeapValue.refs, Option.mem_toList]

/-- Counts leave room for the references that a store adds. -/
def Countable (h : ObjectHeap) : Prop :=
  ∀ x, h.count x + 1 < 0xFFFFFFFF

theorem count_le_of_released (hb : Balanced ∅ h (rs ++ owed)) (hreleased : Released ∅ h owed h') :
    h'.count x ≤ h.count x := by
  have hbefore := hb.ledger.counted x
  have hafter := hreleased.1.ledger.counted x
  have hincoming := incoming_shrinks ObjectBody.children hreleased.2 x
  rw [List.count_append] at hbefore
  omega

theorem count_refs_of_mem (hx : x ∈ v.refs) : v.refs.count x = 1 := by
  rw [HeapValue.refs, mem_refs_iff.mp hx]
  exact List.count_singleton_self

theorem count_refs_le (v : HeapValue) (x : Ref) : v.refs.count x ≤ 1 := by
  by_cases hx : x ∈ v.refs
  · exact (count_refs_of_mem hx).le
  · rw [List.count_eq_zero.mpr hx]
    exact Nat.zero_le 1

/-- A value whose object is alive can be cloned. -/
theorem valueClone_returns (hb : Balanced ∅ h owed) (halive : ∀ x ∈ v.refs, h.count x ≠ 0)
    (hroom : ∀ x ∈ v.refs, h.count x < 0xFFFFFFFF) :
    ∃ h', h.valueClone v = .ok h' ∧ Retained ∅ h (v.refs ++ owed) h' := by
  have hreturns : ∃ h', h.valueClone v = .ok h' := by
    rw [ObjectHeap.valueClone]
    cases hr : v.ref? with
    | none => exact ⟨h, rfl⟩
    | some x =>
        have hx := mem_refs_iff.mpr hr
        refine ⟨h.retain x, ?_⟩
        show h.objectRetain x = _
        rw [ObjectHeap.objectRetain, if_neg (not_not_intro (hb.ledger.usable (halive x hx))),
          if_neg (hroom x hx).ne]
  obtain ⟨h', hrun⟩ := hreturns
  exact ⟨h', hrun, valueClone_spec hb h' hrun⟩

/-- A value that can be cloned has an object that is alive. -/
theorem count_ne_zero_of_valueClone (hb : Balanced ∅ h owed) (hrun : h.valueClone v = .ok h') :
    ∀ x ∈ v.refs, h.count x ≠ 0 := by
  intro x hx
  rw [ObjectHeap.valueClone, mem_refs_iff.mp hx] at hrun
  have hretain : h.objectRetain x = .ok h' := hrun
  rw [ObjectHeap.objectRetain] at hretain
  split at hretain
  · cases hretain
  · rename_i husable
    exact hb.ledger.count_of_usable (Classical.not_not.mp husable)

/-- What a replacement of the value in a slot starts from.  `lost` are references that the
object held besides and does not hold any more. -/
structure Replaces (h : ObjectHeap) (owed : List Ref) (r : Ref) (b emptied filled : ObjectBody)
    (old new : HeapValue) (lost : List Ref) : Prop where
  balanced : Balanced ∅ h owed
  body : h.body r = some b
  emptiedKind : ¬ emptied.IsString
  bodyKind : ¬ b.IsString
  gives : ∀ x, emptied.children.count x + old.refs.count x + lost.count x = b.children.count x
  takes : ∀ x, filled.children.count x = emptied.children.count x + new.refs.count x

namespace Replaces

theorem write_eq (hr : Replaces h owed r b emptied filled old new lost) :
    h.write r emptied = .ok (h.setBody r emptied) := by
  rw [ObjectHeap.write, hr.body]

theorem replaceValue_eq (hr : Replaces h owed r b emptied filled old new lost) :
    h.replaceValue r emptied old new filled = (do
      let h ← ObjectHeap.valueRelease (h.setBody r emptied) old
      let h ← h.valueClone new
      h.write r filled) := by
  rw [ObjectHeap.replaceValue, hr.write_eq]
  rfl

theorem givesUp (hr : Replaces h owed r b emptied filled old new lost) :
    GivesUp ObjectBody.children h (h.setBody r emptied) r old.refs (fun y => lost.count y) where
  others a ha := by simp [Heap.setBody, ha]
  fields y := by
    have hbody : (h.setBody r emptied).body r = some emptied := by simp [Heap.setBody]
    rw [fields_of_body hbody, fields_of_body hr.body]
    exact hr.gives y

theorem balanced_emptied (hr : Replaces h owed r b emptied filled old new lost) :
    Balanced ∅ (h.setBody r emptied) (old.refs ++ (lost ++ owed)) := by
  have hwrite : Gives (h.write r emptied) fun h' =>
      Balanced ∅ h' (old.refs ++ (lost ++ owed)) ∧ h'.body r = some emptied := by
    refine write_spec _ hr.balanced fun b' hb' => ?_
    rw [hr.body] at hb'
    cases hb'
    refine ⟨hr.bodyKind, fun x => ?_⟩
    have hx := hr.gives x
    simp only [List.count_append]
    omega
  exact (hwrite _ hr.write_eq).1

theorem owed_eq (owed lost : List Ref) :
    (fun x => (lost ++ owed).count x) = fun y => owed.count y + lost.count y := by
  funext y
  rw [List.count_append, Nat.add_comm]

/-- The heap after the release of the old value, and what has survived it. -/
theorem release (hr : Replaces h owed r b emptied filled old new lost) :
    ∃ h₂, ObjectHeap.valueRelease (h.setBody r emptied) old = .ok h₂ ∧
      Released ∅ (h.setBody r emptied) (lost ++ owed) h₂ ∧
        ∀ x, h₂.count x ≠ 0 ↔ (h.setBody r emptied).Held ObjectBody.children
          (fun y => owed.count y + lost.count y) x := by
  obtain ⟨h₂, hrun, hreleased⟩ := releaseRefs_returns hr.balanced_emptied
  refine ⟨h₂, hrun, hreleased, fun x => ?_⟩
  rw [← owed_eq]
  exact releaseRefs_survives_iff hr.balanced_emptied hrun

theorem filled_of_ok (hr : Replaces h owed r b emptied filled old new lost)
    (hrun : h.replaceValue r emptied old new filled = .ok h') :
    HeldWithout h owed r old r ∧ ∀ x ∈ new.refs, HeldWithout h owed r old x := by
  obtain ⟨h₂, hrelease, hreleased, hsurvives⟩ := hr.release
  rw [hr.replaceValue_eq] at hrun
  obtain ⟨_, hrun₂, hrun⟩ := bind_eq_ok.mp hrun
  rw [hrelease] at hrun₂
  cases hrun₂
  obtain ⟨h₃, hclone, hwrite⟩ := bind_eq_ok.mp hrun
  have hsame := (valueClone_spec hreleased.1 h₃ hclone).2
  have hself : h₂.count r ≠ 0 := by
    intro hzero
    have hnone : h₃.body r = none := by
      rw [hsame]
      exact (hreleased.1.ledger.body_iff r).mpr hzero
    rw [ObjectHeap.write, hnone] at hwrite
    cases hwrite
  have hheld := (hsurvives r).mp hself
  refine ⟨hr.givesUp.heldWithout hheld hheld, fun x hx => hr.givesUp.heldWithout hheld ?_⟩
  exact (hsurvives x).mp (count_ne_zero_of_valueClone hreleased.1 hclone x hx)

/-- **What a replacement leaves.** -/
structure Result (h h' : ObjectHeap) (owed : List Ref) (r : Ref) (filled : ObjectBody)
    (new : HeapValue) (lost : List Ref) : Prop where
  balanced : Balanced ∅ h' (lost ++ owed)
  body : h'.body r = some filled
  size : h'.size = h.size
  others : ∀ a, a ≠ r → h'.body a = h.body a ∨ h'.body a = none
  alive : ∀ x ∈ new.refs, h'.body x ≠ none

theorem result (hr : Replaces h owed r b emptied filled old new lost) (hroom : Countable h)
    (hself : HeldWithout h owed r old r) (hnew : ∀ x ∈ new.refs, HeldWithout h owed r old x) :
    ∃ h', h.replaceValue r emptied old new filled = .ok h' ∧
      Result h h' owed r filled new lost := by
  obtain ⟨h₂, hrelease, hreleased, hsurvives⟩ := hr.release
  have hcount (x : Ref) : h₂.count x ≤ h.count x :=
    count_le_of_released (h := h.setBody r emptied) hr.balanced_emptied hreleased
  have halive : ∀ x ∈ new.refs, h₂.count x ≠ 0 := fun x hx =>
    (hsurvives x).mpr (hr.givesUp.held (hnew x hx))
  have hbody : h₂.body r = some emptied := by
    rcases hreleased.2.body r with hsame | hnone
    · rw [hsame]
      simp [Heap.setBody]
    · exact absurd ((hreleased.1.ledger.body_iff r).mp hnone)
        ((hsurvives r).mpr (hr.givesUp.held hself))
  obtain ⟨h₃, hclone, hb₃, hsame⟩ := valueClone_returns hreleased.1 halive fun x _ => by
    have hx := hroom x
    have hle := hcount x
    omega
  have hwrite : h₃.write r filled = .ok (h₃.setBody r filled) := by
    rw [ObjectHeap.write, hsame, hbody]
  have hspec : Gives (h₃.write r filled) fun h' =>
      Balanced ∅ h' (lost ++ owed) ∧ h'.body r = some filled := by
    refine write_spec _ hb₃ fun b' hb' => ?_
    rw [hsame, hbody] at hb'
    cases hb'
    refine ⟨hr.emptiedKind, fun x => ?_⟩
    have hx := hr.takes x
    simp only [List.count_append]
    omega
  obtain ⟨hb', hfilled⟩ := hspec _ hwrite
  have hothers (a : Ref) (ha : a ≠ r) : (h₃.setBody r filled).body a = h₂.body a := by
    have hset : (h₃.setBody r filled).body a = h₃.body a := by simp [Heap.setBody, ha]
    rw [hset, hsame]
  refine ⟨_, ?_, hb', hfilled, ?_, fun a ha => ?_, fun x hx => ?_⟩
  · rw [hr.replaceValue_eq]
    refine bind_eq_ok.mpr ⟨_, hrelease, bind_eq_ok.mpr ⟨_, hclone, hwrite⟩⟩
  · exact (valueClone_size h₃ hclone).trans hreleased.2.size
  · rw [hothers a ha]
    rcases hreleased.2.body a with heq | hnone
    · exact .inl (heq.trans (by simp [Heap.setBody, ha]))
    · exact .inr hnone
  · by_cases hxr : x = r
    · rw [hxr, hfilled]
      exact Option.some_ne_none _
    · rw [hothers x hxr]
      exact fun hnone => halive x hx ((hreleased.1.ledger.body_iff x).mp hnone)

/-- The counts after a replacement. -/
theorem Result.count_eq (hr : Replaces h owed r b emptied filled old new lost)
    (hresult : Result h h' owed r filled new lost) (x : Ref) :
    h'.count x + old.refs.count x + h.goneWith ObjectBody.children h' x =
      h.count x + new.refs.count x := by
  have hkept : h'.body r ≠ none := by
    rw [hresult.body]
    exact Option.some_ne_none _
  have hexchange := incoming_exchange ObjectBody.children hresult.size
    (hr.balanced.ledger.lt_size hr.body) hkept hresult.others x
  rw [fields_of_body hr.body, fields_of_body hresult.body] at hexchange
  have hbefore := hr.balanced.ledger.counted x
  have hafter := hresult.balanced.ledger.counted x
  rw [List.count_append] at hafter
  have hgives := hr.gives x
  have htakes := hr.takes x
  omega

end Replaces

/-- Replacing an element of the values that an object is made of. -/
theorem replaces_element (make : List HeapValue → ObjectBody) {vs : List HeapValue} {i : ℕ}
    (hb : Balanced ∅ h owed) (hmake : ∀ vs, ¬ (make vs).IsString ∧ (make vs).children = valueRefs vs)
    (hbody : h.body r = some (make vs)) (hold : vs[i]? = some old) (v : HeapValue) :
    Replaces h owed r (make vs) (make (vs.set i .nil)) (make (vs.set i v)) old v [] where
  balanced := hb
  body := hbody
  emptiedKind := (hmake _).1
  bodyKind := (hmake _).1
  gives x := by
    have hset := count_flatMap_set (f := HeapValue.refs) (b := .nil) (x := x) hold
    simp only [(hmake _).2, valueRefs, refs_nil, List.count_nil] at hset ⊢
    omega
  takes x := by
    have hnil := count_flatMap_set (f := HeapValue.refs) (b := .nil) (x := x) hold
    have hset := count_flatMap_set (f := HeapValue.refs) (b := v) (x := x) hold
    simp only [(hmake _).2, valueRefs, refs_nil, List.count_nil] at hnil hset ⊢
    omega

theorem Setter.safe_of_holder {s : StoreState} {op : Setter} {place : Place} {i : ℕ}
    (hholder : place.holder = some (r, i)) :
    op.Safe s owed place v ↔ HeldWithout s.heap (s.slot.refs ++ owed) r place.old r ∧
      ∀ x ∈ v.refs, HeldWithout s.heap (s.slot.refs ++ owed) r place.old x := by
  obtain ⟨holder, old, key⟩ := place
  obtain rfl : holder = some (r, i) := hholder
  exact Iff.rfl

/-- **A store that replaces the value in a slot of an object** is safe exactly when the
object and the new value are held without the old one. -/
theorem Replaces.safe_iff {s : StoreState} {op : Setter} {place : Place} {i : ℕ}
    (hr : Replaces s.heap (s.slot.refs ++ owed) r b emptied filled place.old v lost)
    (hroom : Countable s.heap) (hholder : place.holder = some (r, i)) (hkey : place.key = .nil)
    (hvalue : filled.valueAt i = some v)
    (hperform : op.perform s v = (fun h => ({ s with heap := h }, true)) <$>
      s.heap.replaceValue r emptied place.old v filled) :
    (∃ s', op.perform s v = .ok (s', true) ∧ StoredSafely s s' place v) ↔
      op.Safe s owed place v := by
  rw [Setter.safe_of_holder hholder, hperform]
  constructor
  · rintro ⟨s', hrun, -⟩
    obtain ⟨h', hreplace, -⟩ := map_eq_ok.mp hrun
    exact hr.filled_of_ok hreplace
  · rintro ⟨hself, hnew⟩
    obtain ⟨h', hreplace, hresult⟩ := hr.result hroom hself hnew
    refine ⟨{ s with heap := h' }, map_eq_ok.mpr ⟨h', hreplace, rfl⟩, ?_, hresult.alive, ?_⟩
    · rw [StoreState.valueAt, hholder]
      show (h'.body r).bind _ = _
      rw [hresult.body]
      exact hvalue
    · intro x hx
      rw [hkey]
      have hcount := Replaces.Result.count_eq hr hresult x
      rwa [count_refs_of_mem hx] at hcount

end Replace

/-! ### The setters -/

section Setters

variable {s : StoreState} {owed : List Ref} {place : Place} {v : HeapValue} {r : Ref}

/-- The place of an element that an array accepts. -/
theorem itemPlace_eq_some {a : ArrayBody} {index : ℤ}
    (h : ObjectHeap.itemPlace r a index v = some place) :
    (0 ≤ index ∧ index < a.count) ∧ a.mismatch v = false ∧
      a.items[index.toNat]? = some place.old ∧ place.holder = some (r, index.toNat) ∧
        place.key = .nil := by
  rw [ObjectHeap.itemPlace] at h
  split at h
  · cases h
  rename_i hnot
  obtain ⟨old, hold, hplace⟩ := Option.bind_eq_some_iff.mp h
  cases hplace
  simp only [not_or, Bool.not_eq_true] at hnot
  exact ⟨by omega, hnot.2.2, hold, rfl, rfl⟩

/-- Setting one of the values that an object is made of. -/
theorem element_safe_iff {op : Setter} (make : List HeapValue → ObjectBody)
    {vs : List HeapValue} {i : ℕ} (hb : Balanced ∅ s.heap (s.slot.refs ++ owed))
    (hroom : Countable s.heap)
    (hmake : ∀ vs, ¬ (make vs).IsString ∧ (make vs).children = valueRefs vs)
    (hat : ∀ vs, (make vs).valueAt i = vs[i]?) (hbody : s.heap.body r = some (make vs))
    (hold : vs[i]? = some place.old) (hholder : place.holder = some (r, i))
    (hkey : place.key = .nil)
    (hperform : op.perform s v = (fun h => ({ s with heap := h }, true)) <$>
      s.heap.replaceValue r (make (vs.set i .nil)) place.old v (make (vs.set i v))) :
    (∃ s', op.perform s v = .ok (s', true) ∧ StoredSafely s s' place v) ↔
      op.Safe s owed place v := by
  refine (replaces_element make hb hmake hbody hold v).safe_iff hroom hholder hkey ?_ hperform
  obtain ⟨hlt, -⟩ := List.getElem?_eq_some_iff.mp hold
  rw [hat]
  exact List.getElem?_set_self hlt

theorem setItem_safe_iff {op : Setter} {a : ArrayBody} {i : ℕ}
    (hb : Balanced ∅ s.heap (s.slot.refs ++ owed)) (hroom : Countable s.heap)
    (hbody : s.heap.body r = some (.array a)) (hold : a.items[i]? = some place.old)
    (hholder : place.holder = some (r, i)) (hkey : place.key = .nil)
    (hperform : op.perform s v = (fun h => ({ s with heap := h }, true)) <$>
      s.heap.setItem r a i v) :
    (∃ s', op.perform s v = .ok (s', true) ∧ StoredSafely s s' place v) ↔
      op.Safe s owed place v := by
  refine element_safe_iff (fun vs => .array { a with items := vs }) hb hroom
    (fun _ => ⟨id, rfl⟩) (fun _ => rfl) hbody hold hholder hkey ?_
  rw [hperform, ObjectHeap.setItem, hold]
  rfl

theorem arraySet_safe_iff {idx : ℤ} (hb : Balanced ∅ s.heap (s.slot.refs ++ owed))
    (hroom : Countable s.heap) (hplace : (Setter.arraySet r idx).place s v = .ok (some place)) :
    (∃ s', (Setter.arraySet r idx).perform s v = .ok (s', true) ∧ StoredSafely s s' place v) ↔
      (Setter.arraySet r idx).Safe s owed place v := by
  obtain ⟨a, hget, hitem⟩ := bind_eq_ok.mp hplace
  obtain ⟨⟨hlow, hhigh⟩, hmatch, hold, hholder, hkey⟩ := itemPlace_eq_some (Except.ok.inj hitem)
  refine setItem_safe_iff hb hroom (getArray_spec a hget) hold hholder hkey ?_
  have hset : s.heap.arraySet (some r) idx v =
      (fun h => (h, true)) <$> s.heap.setItem r a idx.toNat v := by
    rw [ObjectHeap.arraySet, hget]
    show (if idx < 0 ∨ a.count ≤ idx then _ else _) = _
    rw [if_neg (by omega), hmatch]
    rfl
  show (s.heap.arraySet (some r) idx v >>= _) = _
  rw [hset]
  cases s.heap.setItem r a idx.toNat v <;> rfl

theorem arraySetSafe_safe_iff {index : ℤ} (hb : Balanced ∅ s.heap (s.slot.refs ++ owed))
    (hroom : Countable s.heap)
    (hplace : (Setter.arraySetSafe r index).place s v = .ok (some place)) :
    (∃ s', (Setter.arraySetSafe r index).perform s v = .ok (s', true) ∧
        StoredSafely s s' place v) ↔
      (Setter.arraySetSafe r index).Safe s owed place v := by
  obtain ⟨a, hget, hitem⟩ := bind_eq_ok.mp hplace
  obtain ⟨⟨hlow, hhigh⟩, hmatch, hold, hholder, hkey⟩ := itemPlace_eq_some (Except.ok.inj hitem)
  refine setItem_safe_iff hb hroom (getArray_spec a hget) hold hholder hkey ?_
  have hset : s.heap.arraySetSafe (some r) index v =
      (fun h => (h, .ok ())) <$> s.heap.setItem r a (a.resolve index).toNat v := by
    rw [ObjectHeap.arraySetSafe, hget]
    show (if a.resolve index < 0 ∨ a.count ≤ a.resolve index then _ else _) = _
    rw [if_neg (by omega), hmatch]
    rfl
  show (s.heap.arraySetSafe (some r) index v >>= _) = _
  rw [hset]
  cases s.heap.setItem r a (a.resolve index).toNat v <;> rfl

/-- The place of a field. -/
theorem fieldPlace_eq_some {names : List Ident} {values : List HeapValue} {name : Ident}
    (h : ObjectHeap.fieldPlace r names values name = some place) :
    ∃ index, ObjectHeap.findFieldIndex names name = some index ∧
      values[index]? = some place.old ∧ place.holder = some (r, index) ∧ place.key = .nil := by
  obtain ⟨index, hindex, h⟩ := Option.bind_eq_some_iff.mp h
  obtain ⟨old, hold, hplace⟩ := Option.bind_eq_some_iff.mp h
  cases hplace
  exact ⟨index, hindex, hold, rfl, rfl⟩

theorem structSetField_safe_iff {name : Ident} (hb : Balanced ∅ s.heap (s.slot.refs ++ owed))
    (hroom : Countable s.heap)
    (hplace : (Setter.structSetField r name).place s v = .ok (some place)) :
    (∃ s', (Setter.structSetField r name).perform s v = .ok (s', true) ∧
        StoredSafely s s' place v) ↔
      (Setter.structSetField r name).Safe s owed place v := by
  rw [Setter.place] at hplace
  split at hplace
  · rename_i b hbody
    obtain ⟨index, hindex, hold, hholder, hkey⟩ := fieldPlace_eq_some (Except.ok.inj hplace)
    refine element_safe_iff (fun vs => .struct { b with fieldValues := vs }) hb hroom
      (fun _ => ⟨id, rfl⟩) (fun _ => rfl) hbody hold hholder hkey ?_
    rw [Setter.perform, ObjectHeap.structSetField, hbody]
    dsimp only
    rw [hindex]
    dsimp only
    rw [hold]
    rfl
  · cases hplace

theorem classSetField_safe_iff {name : Ident} (hb : Balanced ∅ s.heap (s.slot.refs ++ owed))
    (hroom : Countable s.heap)
    (hplace : (Setter.classSetField r name).place s v = .ok (some place)) :
    (∃ s', (Setter.classSetField r name).perform s v = .ok (s', true) ∧
        StoredSafely s s' place v) ↔
      (Setter.classSetField r name).Safe s owed place v := by
  rw [Setter.place] at hplace
  split at hplace
  · rename_i b hbody
    obtain ⟨index, hindex, hold, hholder, hkey⟩ := fieldPlace_eq_some (Except.ok.inj hplace)
    refine element_safe_iff (fun vs => .instance { b with fieldValues := vs }) hb hroom
      (fun _ => ⟨id, rfl⟩) (fun _ => rfl) hbody hold hholder hkey ?_
    rw [Setter.perform, ObjectHeap.classSetField, hbody]
    dsimp only
    rw [hindex]
    dsimp only
    rw [hold]
    rfl
  · cases hplace

/-! ### Slots of the caller -/

/-- The references that have gone depend on the bodies that are left. -/
theorem goneWith_congr {h h₁ h₂ : ObjectHeap} (hbody : h₂.body = h₁.body) (x : Ref) :
    h.goneWith ObjectBody.children h₂ x = h.goneWith ObjectBody.children h₁ x := by
  rw [Heap.goneWith, Heap.goneWith, hbody]

theorem valueCopy_safe_iff {source : Option Ref} (hb : Balanced ∅ s.heap (s.slot.refs ++ owed))
    (hroom : Countable s.heap)
    (hplace : (Setter.valueCopy source).place s v = .ok (some place)) :
    (∃ s', (Setter.valueCopy source).perform s v = .ok (s', true) ∧
        StoredSafely s s' place v) ↔
      (Setter.valueCopy source).Safe s owed place v := by
  cases hplace
  obtain ⟨h₂, hrelease, hreleased⟩ := releaseRefs_returns hb
  have hsurvives (x : Ref) : h₂.body x ≠ none ↔
      s.heap.Held ObjectBody.children (fun y => owed.count y) x := by
    rw [← releaseRefs_survives_iff hb hrelease]
    exact not_congr (hreleased.1.ledger.body_iff x)
  have hsource : (source.any fun y => (h₂.body y).isNone) = false ↔
      ∀ y ∈ source, s.heap.Held ObjectBody.children (fun x => owed.count x) y := by
    simp only [← hsurvives]
    cases source with
    | none => simp
    | some y => simp [Option.isSome_iff_ne_none]
  have hperform : (Setter.valueCopy source).perform s v =
      (if source.any fun y => (h₂.body y).isNone then .error (.undefined .useAfterFree)
      else (fun h => (⟨h, v⟩, true)) <$> h₂.valueClone v) := by
    show (s.heap.valueCopy source v s.slot >>= _) = _
    rw [ObjectHeap.valueCopy, ObjectHeap.valueRelease, hrelease]
    show ((if source.any fun y => (h₂.body y).isNone then _ else _) >>= _) = _
    cases source.any fun y => (h₂.body y).isNone with
    | true => rfl
    | false => cases h₂.valueClone v <;> rfl
  rw [hperform]
  constructor
  · rintro ⟨s', hrun, -⟩
    cases hany : source.any fun y => (h₂.body y).isNone with
    | true =>
        rw [hany, if_pos rfl] at hrun
        cases hrun
    | false =>
        rw [hany, if_neg Bool.false_ne_true] at hrun
        obtain ⟨h₃, hclone, -⟩ := map_eq_ok.mp hrun
        refine ⟨hsource.mp hany, fun x hx => (hsurvives x).mp fun hnone => ?_⟩
        exact count_ne_zero_of_valueClone hreleased.1 hclone x hx
          ((hreleased.1.ledger.body_iff x).mp hnone)
  · rintro ⟨hheld, hnew⟩
    have halive : ∀ x ∈ v.refs, h₂.count x ≠ 0 := fun x hx hzero =>
      (hsurvives x).mpr (hnew x hx) ((hreleased.1.ledger.body_iff x).mpr hzero)
    obtain ⟨h₃, hclone, hb₃, hsame⟩ := valueClone_returns hreleased.1 halive fun x _ => by
      have hx := hroom x
      have hle := count_le_of_released (x := x) hb hreleased
      omega
    rw [hsource.mpr hheld, if_neg Bool.false_ne_true]
    refine ⟨⟨h₃, v⟩, map_eq_ok.mpr ⟨h₃, hclone, rfl⟩, rfl, fun x hx => ?_, fun x hx => ?_⟩
    · rw [hsame]
      exact (hsurvives x).mpr (hnew x hx)
    · have hbefore := hb.ledger.counted x
      have hafter := hb₃.ledger.counted x
      have hincoming := incoming_shrinks ObjectBody.children hreleased.2 x
      have hsize : h₃.size = h₂.size := valueClone_size h₃ hclone
      rw [incoming_congr hsize hsame, List.count_append, count_refs_of_mem hx] at hafter
      rw [List.count_append] at hbefore
      show h₃.count x + s.slot.refs.count x + s.heap.goneWith _ h₃ x = s.heap.count x + 1 + 0
      rw [goneWith_congr hsame]
      omega

/-- **`bread_value_assign`** retains the new value first, and is safe. -/
theorem valueAssign_safe (hb : Balanced ∅ s.heap (s.slot.refs ++ owed))
    (hroom : Countable s.heap) (hv : ∀ x ∈ v.refs, s.heap.body x ≠ none) :
    ∃ s', Setter.valueAssign.perform s v = .ok (s', true) ∧
      StoredSafely s s' ⟨none, s.slot, .nil⟩ v := by
  have halive : ∀ x ∈ v.refs, s.heap.count x ≠ 0 := fun x hx hzero =>
    hv x hx ((hb.ledger.body_iff x).mpr hzero)
  obtain ⟨h₁, hclone, hb₁, hsame⟩ := valueClone_returns hb halive fun x _ => by
    have hx := hroom x
    omega
  have hmoved : Balanced ∅ h₁ (s.slot.refs ++ (v.refs ++ owed)) :=
    hb₁.congr fun x => by
      simp only [List.count_append]
      omega
  obtain ⟨h₂, hrelease, hreleased⟩ := releaseRefs_returns hmoved
  have hsize : h₁.size = s.heap.size := valueClone_size h₁ hclone
  refine ⟨⟨h₂, v⟩, ?_, rfl, fun x hx hnone => ?_, fun x hx => ?_⟩
  · show (s.heap.valueAssign s.slot v >>= _) = _
    rw [ObjectHeap.valueAssign, hclone]
    show ((h₁.valueRelease s.slot >>= _) >>= _) = _
    rw [ObjectHeap.valueRelease, hrelease]
    rfl
  · refine hreleased.1.ledger.count_ne_zero (r := x) ?_ ((hreleased.1.ledger.body_iff x).mp hnone)
    have hone := count_refs_of_mem hx
    rw [List.count_append]
    omega
  · have hbefore := hb.ledger.counted x
    have hafter := hreleased.1.ledger.counted x
    have hincoming := incoming_shrinks ObjectBody.children hreleased.2 x
    have hgone : h₁.goneWith ObjectBody.children h₂ x =
        s.heap.goneWith ObjectBody.children h₂ x := by
      rw [Heap.goneWith, Heap.goneWith, hsize]
      simp only [Heap.fields, hsame]
    rw [incoming_congr hsize hsame, hgone] at hincoming
    rw [List.count_append, count_refs_of_mem hx] at hafter
    rw [List.count_append] at hbefore
    show h₂.count x + s.slot.refs.count x + s.heap.goneWith _ h₂ x = s.heap.count x + 1 + 0
    omega

/-! ### Dictionaries -/

section Tables

variable {h h' : ObjectHeap} {d d₀ : DictBody} {lost : List Ref} {slot : ℕ} {e : HeapEntry}
  {key : HeapValue}

/-- Setting the value of a live entry, in a table that may have lost some references. -/
theorem replaces_entry (hb : Balanced ∅ h owed) (hbody : h.body r = some (.dict d₀))
    (hloses : Loses d d₀.refs lost) (he : d.entries[slot]? = some e) (hlive : e.isLive = true)
    (v : HeapValue) :
    Replaces h owed r (.dict d₀) (.dict (d.setEntry slot { e with value := .nil }))
      (.dict (d.setEntry slot { e with value := v })) e.value v lost := by
  have hrefs (w : HeapValue) : HeapEntry.refs { e with value := w } = e.key.refs ++ w.refs :=
    if_pos hlive
  have hold : e.refs = e.key.refs ++ e.value.refs := hrefs e.value
  have hset (w : HeapValue) (x : Ref) :
      (d.setEntry slot { e with value := w }).refs.count x + e.value.refs.count x =
        d.refs.count x + w.refs.count x := by
    have hx := refs_setEntry he { e with value := w } x
    rw [hold, hrefs, List.count_append, List.count_append] at hx
    omega
  refine ⟨hb, hbody, id, id, fun x => ?_, fun x => ?_⟩
  · have hx := hset .nil x
    have hlost := hloses x
    simp only [refs_nil, List.count_nil] at hx
    simp only [children_dict]
    omega
  · have hx := hset .nil x
    have hx' := hset v x
    simp only [refs_nil, List.count_nil] at hx
    simp only [children_dict]
    omega

theorem valueAt_setEntry (he : d.entries[slot]? = some e) (hlive : e.isLive = true)
    (v : HeapValue) :
    (ObjectBody.dict (d.setEntry slot { e with value := v })).valueAt slot = some v := by
  obtain ⟨hlt, -⟩ := List.getElem?_eq_some_iff.mp he
  have hset : (d.setEntry slot { e with value := v }).entries[slot]? =
      some { e with value := v } := List.getElem?_set_self hlt
  rw [ObjectBody.valueAt, hset]
  exact if_pos hlive

/-- **A new entry**, in a heap in which nothing is released. -/
structure Inserted (h h' : ObjectHeap) (r : Ref) (d : DictBody) (slot : ℕ)
    (key v : HeapValue) : Prop where
  body : h'.body r = some (.dict (d.addEntry slot ⟨key, v, true, false⟩))
  size : h'.size = h.size
  others : ∀ a, a ≠ r → h'.body a = h.body a

theorem fillSlot_returns (hb : Balanced ∅ h owed) (hroom : Countable h)
    (hbody : h.body r = some (.dict d₀)) (hloses : Loses d d₀.refs lost)
    (he : d.entries[slot]? = some e) (hkey : ∀ x ∈ key.refs, h.count x ≠ 0)
    (hv : ∀ x ∈ v.refs, h.count x ≠ 0) :
    ∃ h', h.fillSlot r d slot key v = .ok h' ∧ Inserted h h' r d slot key v ∧
      Balanced ∅ h' (e.refs ++ (lost ++ owed)) := by
  obtain ⟨h₁, hclone₁, hb₁, hsame₁⟩ := valueClone_returns hb hkey fun x _ => by
    have hx := hroom x
    omega
  have hcount₁ (x : Ref) : h₁.count x = key.refs.count x + h.count x := by
    have hbefore := hb.ledger.counted x
    have hafter := hb₁.ledger.counted x
    rw [incoming_congr (valueClone_size h₁ hclone₁) hsame₁, List.count_append] at hafter
    omega
  obtain ⟨h₂, hclone₂, hb₂, hsame₂⟩ := valueClone_returns hb₁
    (fun x hx => by
      have hne := hv x hx
      rw [hcount₁]
      omega)
    fun x _ => by
      have hx := hroom x
      have hone := count_refs_le key x
      rw [hcount₁]
      omega
  have hsame : h₂.body = h.body := hsame₂.trans hsame₁
  have hwrite : h₂.write r (.dict (d.addEntry slot ⟨key, v, true, false⟩)) =
      .ok (h₂.setBody r (.dict (d.addEntry slot ⟨key, v, true, false⟩))) := by
    rw [ObjectHeap.write, hsame, hbody]
  have hfill : h.fillSlot r d slot key v =
      .ok (h₂.setBody r (.dict (d.addEntry slot ⟨key, v, true, false⟩))) := by
    rw [ObjectHeap.fillSlot, hclone₁]
    refine bind_eq_ok.mpr ⟨h₁, rfl, bind_eq_ok.mpr ⟨h₂, hclone₂, hwrite⟩⟩
  obtain ⟨hb', hbody', -⟩ := fillSlot_spec hb hbody hloses he key v _ hfill
  refine ⟨_, hfill, ⟨hbody', ?_, fun a ha => ?_⟩, hb'⟩
  · exact (valueClone_size h₂ hclone₂).trans (valueClone_size h₁ hclone₁)
  · show Function.update h₂.body r _ a = _
    rw [Function.update_of_ne ha, hsame]

theorem Inserted.valueAt (hi : Inserted h h' r d slot key v) (he : d.entries[slot]? = some e) :
    (h'.body r).bind (fun b => b.valueAt slot) = some v := by
  obtain ⟨hlt, -⟩ := List.getElem?_eq_some_iff.mp he
  have hset : (d.addEntry slot ⟨key, v, true, false⟩).entries[slot]? =
      some ⟨key, v, true, false⟩ := List.getElem?_set_self hlt
  rw [hi.body]
  show (ObjectBody.dict _).valueAt slot = some v
  rw [ObjectBody.valueAt, hset]
  rfl

theorem Inserted.alive (hi : Inserted h h' r d slot key v) {x : Ref} (hx : h.body x ≠ none) :
    h'.body x ≠ none := by
  by_cases hxr : x = r
  · rw [hxr, hi.body]
    exact Option.some_ne_none _
  · rw [hi.others x hxr]
    exact hx

/-- The count of an object after an insertion. -/
theorem Inserted.counted {owed' : List Ref} (hi : Inserted h h' r d slot key v)
    (hb : Balanced ∅ h owed) (hb' : Balanced ∅ h' owed') (hbody : h.body r = some (.dict d₀))
    (hloses : Loses d d₀.refs lost) (he : d.entries[slot]? = some e) (hfree : e.isLive = false)
    {x : Ref} (hx : x ∈ v.refs) (howed : owed'.count x = lost.count x + owed.count x) :
    h'.count x + h.goneWith ObjectBody.children h' x = h.count x + 1 + key.refs.count x := by
  have hkept : h'.body r ≠ none := by
    rw [hi.body]
    exact Option.some_ne_none _
  have hexchange := incoming_exchange ObjectBody.children hi.size
    (hb.ledger.lt_size hbody) hkept (fun a ha => .inl (hi.others a ha)) x
  rw [fields_of_body hbody, fields_of_body hi.body, children_dict, children_dict] at hexchange
  have hadd := refs_addEntry he ⟨key, v, true, false⟩ x
  rw [refs_live, refs_of_not_isLive hfree, List.count_append, List.count_nil,
    count_refs_of_mem hx] at hadd
  have hbefore := hb.ledger.counted x
  have hafter := hb'.ledger.counted x
  have hlost := hloses x
  omega

/-! ### The string that `bread_dict_set` makes of its key -/

section KeyString

variable {data : BreadString} {x : Ref}

theorem body_stringNew_of_ne (hx : x ≠ h.size) : (h.stringNew data).2.body x = h.body x := by
  simp [ObjectHeap.stringNew, ObjectHeap.create, Heap.alloc, hx]

theorem count_stringNew_of_ne (hx : x ≠ h.size) : (h.stringNew data).2.count x = h.count x := by
  simp [ObjectHeap.stringNew, ObjectHeap.create, Heap.alloc, hx]

theorem Balanced.ne_size (hb : Balanced ∅ h owed) (hx : h.body x ≠ none) : x ≠ h.size := by
  rintro rfl
  exact hx ((hb.ledger.body_iff h.size).mpr (hb.ledger.fresh h.size le_rfl))

theorem balanced_stringNew (hb : Balanced ∅ h owed) (data : BreadString) :
    Balanced ∅ (h.stringNew data).2 (h.size :: owed) :=
  create_spec hb

theorem countable_stringNew (hroom : Countable h) (data : BreadString) :
    Countable (h.stringNew data).2 := by
  intro x
  by_cases hx : x = h.size
  · rw [hx]
    simp [ObjectHeap.stringNew, ObjectHeap.create, Heap.alloc]
  · rw [count_stringNew_of_ne hx]
    exact hroom x

theorem heldWithout_stringNew_iff (hb : Balanced ∅ h owed) (hx : h.body x ≠ none)
    (old : HeapValue) :
    HeldWithout (h.stringNew data).2 (h.size :: owed) r old x ↔ HeldWithout h owed r old x := by
  have hsum : (fun y => (h.size :: owed).count y) =
      fun y => owed.count y + if y = h.size then 1 else 0 := by
    funext y
    rw [List.count_cons]
    simp only [beq_iff_eq, eq_comm (a := h.size)]
  rw [HeldWithout, hsum]
  exact hb.ledger.heldWithout_alloc_iff (b := .string data) rfl (hb.ne_size hx)

/-- References that have gone with objects, before and after a string was made. -/
theorem goneWith_stringNew (h h₂ : ObjectHeap) :
    (h.stringNew data).2.goneWith ObjectBody.children h₂ x =
      h.goneWith ObjectBody.children h₂ x := by
  have hlast : (h.stringNew data).2.fields ObjectBody.children h.size = [] :=
    fields_of_body (body_create h (.string data))
  have hrest : ∀ a ∈ Finset.range h.size,
      (if h₂.body a = none then
        ((h.stringNew data).2.fields ObjectBody.children a).count x else 0) =
      if h₂.body a = none then (h.fields ObjectBody.children a).count x else 0 := by
    intro a ha
    rw [Heap.fields, Heap.fields, body_stringNew_of_ne (Finset.mem_range.mp ha).ne]
  show ∑ a ∈ Finset.range (h.size + 1), _ = _
  rw [Finset.sum_range_succ, hlast, List.count_nil, ite_self, Nat.add_zero,
    Finset.sum_congr rfl hrest, Heap.goneWith]

/-- The release of a string that the caller holds. -/
theorem releaseString {k : Ref} (hb : Balanced ∅ h (k :: owed))
    (hbody : h.body k = some (.string data)) :
    ∃ h', h.releaseRefs [k] = .ok h' ∧
      ∀ a, a ≠ k → h'.body a = h.body a ∧ h'.count a = h.count a := by
  have hzero : h.count k ≠ 0 := hb.ledger.count_of_body hbody
  by_cases hone : h.count k = 1
  · refine ⟨(h.takeApart k).free k, ?_, fun a ha => ?_⟩
    · rw [ObjectHeap.releaseRefs, List.map_singleton, drain,
        dif_pos (hb.ledger.usable hzero), dif_neg hzero, if_pos hone, fields_of_body hbody,
        ObjectBody.children, List.map_nil, List.nil_append, drain, drain]
    · simp [Heap.free, Heap.takeApart, Heap.lower, ha]
  · refine ⟨h.lower k, releaseRefs_lower hb hone, fun a ha => ?_⟩
    simp [Heap.lower, ha]

end KeyString

end Tables

/-- Storing a new entry is safe: nothing is released. -/
theorem safe_of_old_nil {op : Setter} {i : ℕ} (hb : Balanced ∅ s.heap (s.slot.refs ++ owed))
    (hv : ∀ x ∈ v.refs, s.heap.body x ≠ none) (hself : s.heap.body r ≠ none)
    (hholder : place.holder = some (r, i)) (hold : place.old = .nil) :
    op.Safe s owed place v := by
  have hheld {x : Ref} (hx : s.heap.body x ≠ none) :
      HeldWithout s.heap (s.slot.refs ++ owed) r place.old x := by
    rw [hold]
    exact hb.ledger.heldWithout_nil fun hzero => hx ((hb.ledger.body_iff x).mpr hzero)
  rw [Setter.safe_of_holder hholder]
  exact ⟨hheld hself, fun x hx => hheld (hv x hx)⟩

theorem dictSetSafe_safe_iff {key : HeapValue} (hb : Balanced ∅ s.heap (s.slot.refs ++ owed))
    (hroom : Countable s.heap) (hv : ∀ x ∈ v.refs, s.heap.body x ≠ none)
    (hkey : ∀ x ∈ key.refs, s.heap.body x ≠ none)
    (hplace : (Setter.dictSetSafe r key).place s v = .ok (some place)) :
    (∃ s', (Setter.dictSetSafe r key).perform s v = .ok (s', true) ∧
        StoredSafely s s' place v) ↔
      (Setter.dictSetSafe r key).Safe s owed place v := by
  have halive {x : Ref} (hx : s.heap.body x ≠ none) : s.heap.count x ≠ 0 := fun hzero =>
    hx ((hb.ledger.body_iff x).mpr hzero)
  obtain ⟨d₀, hget, hplace⟩ := bind_eq_ok.mp hplace
  have hbody := getDict_spec d₀ hget
  rw [ObjectHeap.probedPlace] at hplace
  split at hplace
  · cases hplace
  rename_i hmatch
  rw [Bool.or_eq_true, not_or] at hmatch
  obtain ⟨d, hgrow, hplace⟩ := bind_eq_ok.mp hplace
  obtain ⟨found, hfind, hplace⟩ := bind_eq_ok.mp hplace
  cases found with
  | none => cases hplace
  | some slot =>
      obtain ⟨e, hentry, hplace⟩ := bind_eq_ok.mp hplace
      have he := entryAt_spec e hentry
      obtain ⟨lost, hloses, -⟩ := growIfNeeded_spec _ d hgrow
      rw [refs_adoptTypes] at hloses
      have hset : s.heap.dictSetSafe (some r) key v = (if e.isLive then
          (fun h => (h, .ok ())) <$> s.heap.setEntryValue r d slot e v
          else (fun h => (h, .ok ())) <$> s.heap.fillSlot r d slot key v) := by
        rw [ObjectHeap.dictSetSafe, hget]
        refine (if_neg hmatch.1).trans ((if_neg hmatch.2).trans ?_)
        rw [hgrow]
        show (s.heap.findSlot d key >>= _) = _
        rw [hfind]
        show (d.entryAt slot >>= _) = _
        rw [hentry]
        rfl
      have hperform : (Setter.dictSetSafe r key).perform s v = (if e.isLive then
          (fun h => ({ s with heap := h }, true)) <$> s.heap.setEntryValue r d slot e v
          else (fun h => ({ s with heap := h }, true)) <$> s.heap.fillSlot r d slot key v) := by
        show (s.heap.dictSetSafe (some r) key v >>= _) = _
        rw [hset]
        cases e.isLive with
        | true => cases s.heap.setEntryValue r d slot e v <;> rfl
        | false => cases s.heap.fillSlot r d slot key v <;> rfl
      cases hlive : e.isLive with
      | true =>
          rw [hlive] at hplace hperform
          cases hplace
          exact (replaces_entry hb hbody hloses he hlive v).safe_iff hroom rfl rfl
            (valueAt_setEntry he hlive v) hperform
      | false =>
          rw [hlive] at hplace hperform
          cases hplace
          obtain ⟨h', hfill, hi, hb'⟩ := fillSlot_returns hb hroom hbody hloses he
            (fun x hx => halive (hkey x hx)) (fun x hx => halive (hv x hx))
          rw [refs_of_not_isLive hlive, List.nil_append] at hb'
          refine iff_of_true ⟨{ s with heap := h' }, ?_, ?_, fun x hx => hi.alive (hv x hx),
            fun x hx => hi.counted hb hb' hbody hloses he hlive hx List.count_append⟩ ?_
          · rw [hperform, if_neg Bool.false_ne_true, hfill]
            rfl
          · exact hi.valueAt he
          · refine safe_of_old_nil hb hv ?_ rfl rfl
            rw [hbody]
            exact Option.some_ne_none _

section ScannedPlace

variable {h h₁ : ObjectHeap} {d d₀ : DictBody} {k : Ref}

/-- The insertion of `bread_dict_set` at a free slot. -/
theorem insertFirstFree_returns {slot : ℕ} (hb : Balanced ∅ h (k :: owed)) (hroom : Countable h)
    (hbody : h.body r = some (.dict d₀)) (hv : ∀ x ∈ v.refs, h.count x ≠ 0)
    (hscan : ObjectHeap.scan (fun e => .ok (!e.isOccupied || e.isDeleted)) 0 d.entries =
      .ok (some slot)) :
    ∃ h', h.insertFirstFree r k d v = .ok (h', true) ∧
      Inserted h h' r d slot (.string (some k)) v := by
  obtain ⟨h₂, hclone, hb₂, hsame⟩ := valueClone_returns hb hv fun x _ => by
    have hx := hroom x
    omega
  refine ⟨h₂.setBody r (.dict (d.addEntry slot ⟨.string (some k), v, true, false⟩)), ?_, ?_,
    valueClone_size h₂ hclone, fun a ha => ?_⟩
  · have hwrite : h₂.write r (.dict (d.addEntry slot ⟨.string (some k), v, true, false⟩)) =
        .ok (h₂.setBody r (.dict (d.addEntry slot ⟨.string (some k), v, true, false⟩))) := by
      rw [ObjectHeap.write, hsame, hbody]
    rw [ObjectHeap.insertFirstFree, hscan]
    refine bind_eq_ok.mpr ⟨_, rfl, bind_eq_ok.mpr ⟨h₂, hclone, bind_eq_ok.mpr ⟨_, hwrite, rfl⟩⟩⟩
  · simp [Heap.setBody]
  · show Function.update h₂.body r _ a = _
    rw [Function.update_of_ne ha, hsame]

/-- A new entry made by `bread_dict_set` is safe. -/
theorem inserted_safe_iff {key : BreadString} {slot : ℕ}
    (hb : Balanced ∅ s.heap (s.slot.refs ++ owed)) (hroom : Countable s.heap)
    (hv : ∀ x ∈ v.refs, s.heap.body x ≠ none) (hbody : s.heap.body r = some (.dict d₀))
    (hloses : Loses d d₀.refs [])
    (hscan : ObjectHeap.scan (fun e => .ok (!e.isOccupied || e.isDeleted)) 0 d.entries =
      .ok (some slot))
    (hset : s.heap.dictSet r key v =
      (s.heap.stringNew (cString key)).2.insertFirstFree r s.heap.size d v) :
    (∃ s', (Setter.dictSet r key).perform s v = .ok (s', true) ∧
        StoredSafely s s' ⟨some (r, slot), .nil, .nil⟩ v) ↔
      (Setter.dictSet r key).Safe s owed ⟨some (r, slot), .nil, .nil⟩ v := by
  have hr : s.heap.body r ≠ none := by
    rw [hbody]
    exact Option.some_ne_none _
  have hb₁ := balanced_stringNew hb (cString key)
  have hbody₁ : (s.heap.stringNew (cString key)).2.body r = some (.dict d₀) :=
    (body_stringNew_of_ne (hb.ne_size hr)).trans hbody
  have hne {x : Ref} (hx : x ∈ v.refs) : x ≠ s.heap.size := hb.ne_size (hv x hx)
  obtain ⟨h', hinsert, hi⟩ := insertFirstFree_returns (v := v) hb₁
    (countable_stringNew hroom (cString key)) hbody₁ (fun x hx => by
      rw [count_stringNew_of_ne (hne hx)]
      exact fun hzero => hv x hx ((hb.ledger.body_iff x).mpr hzero)) hscan
  obtain ⟨i, e, hi', he, htest⟩ := (scan_spec 0 d.entries (some slot) hscan).1 slot rfl
  obtain rfl : slot = i := by omega
  have hfree : e.isLive = false := by
    have hfree : (!e.isOccupied || e.isDeleted) = true := Except.ok.inj htest
    rw [HeapEntry.isLive]
    revert hfree
    cases e.isOccupied <;> cases e.isDeleted <;> simp
  have hb' : Balanced ∅ h' (s.slot.refs ++ owed) :=
    insertFirstFree_spec hb₁ hbody₁ hloses v (h', true) hinsert
  refine iff_of_true ⟨{ s with heap := h' }, ?_, hi.valueAt he, fun x hx => hi.alive ?_,
    fun x hx => ?_⟩ (safe_of_old_nil hb hv hr rfl rfl)
  · show (s.heap.dictSet r key v >>= _) = _
    rw [hset, hinsert]
    rfl
  · rw [body_stringNew_of_ne (hne hx)]
    exact hv x hx
  · have hother : (s.heap.size :: (s.slot.refs ++ owed)).count x = (s.slot.refs ++ owed).count x :=
      List.count_cons_of_ne (hne hx).symm
    have hcounted := hi.counted hb₁ hb' hbody₁ hloses he hfree hx
      (by rw [hother, List.count_nil, Nat.zero_add])
    have hkey : (HeapValue.string (some s.heap.size)).refs.count x = 0 :=
      List.count_eq_zero.mpr fun hmem => hne hx (List.mem_singleton.mp hmem)
    rw [goneWith_stringNew, count_stringNew_of_ne (hne hx), hkey] at hcounted
    exact hcounted

/-- The value of an entry that `bread_dict_set` finds. -/
theorem found_safe_iff {key : BreadString} {slot : ℕ} {e : HeapEntry}
    (hb : Balanced ∅ s.heap (s.slot.refs ++ owed)) (hroom : Countable s.heap)
    (hv : ∀ x ∈ v.refs, s.heap.body x ≠ none) (hbody : s.heap.body r = some (.dict d₀))
    (hloses : Loses d d₀.refs []) (he : d.entries[slot]? = some e) (hlive : e.isLive = true)
    (hset : s.heap.dictSet r key v = (do
      let h ← (s.heap.stringNew (cString key)).2.setEntryValue r d slot e v
      return (← h.releaseRefs [s.heap.size], true))) :
    (∃ s', (Setter.dictSet r key).perform s v = .ok (s', true) ∧
        StoredSafely s s' ⟨some (r, slot), e.value, .nil⟩ v) ↔
      (Setter.dictSet r key).Safe s owed ⟨some (r, slot), e.value, .nil⟩ v := by
  have hself : s.heap.body r ≠ none := by
    rw [hbody]
    exact Option.some_ne_none _
  have hb₁ := balanced_stringNew hb (cString key)
  have hbody₁ : (s.heap.stringNew (cString key)).2.body r = some (.dict d₀) :=
    (body_stringNew_of_ne (hb.ne_size hself)).trans hbody
  have hne {x : Ref} (hx : x ∈ v.refs) : x ≠ s.heap.size := hb.ne_size (hv x hx)
  have hr := replaces_entry hb₁ hbody₁ hloses he hlive v
  rw [Setter.safe_of_holder (i := slot) rfl]
  constructor
  · rintro ⟨s', hperform, -⟩
    obtain ⟨⟨h', stored⟩, hdict, -⟩ := bind_eq_ok.mp hperform
    rw [hset] at hdict
    obtain ⟨h₂, hreplace, -⟩ := bind_eq_ok.mp hdict
    obtain ⟨hheld, hnew⟩ := hr.filled_of_ok hreplace
    exact ⟨(heldWithout_stringNew_iff hb hself e.value).mp hheld, fun x hx =>
      (heldWithout_stringNew_iff hb (hv x hx) e.value).mp (hnew x hx)⟩
  · rintro ⟨hheld, hnew⟩
    obtain ⟨h₂, hreplace, hresult⟩ := hr.result (countable_stringNew hroom (cString key))
      ((heldWithout_stringNew_iff hb hself e.value).mpr hheld)
      fun x hx => (heldWithout_stringNew_iff hb (hv x hx) e.value).mpr (hnew x hx)
    have hkey : h₂.body s.heap.size = some (.string (cString key)) := by
      have hne' : s.heap.size ≠ r := (hb.ne_size hself).symm
      rcases hresult.others s.heap.size hne' with hsame | hnone
      · rw [hsame]
        exact body_create s.heap (.string (cString key))
      · have howed : ([] ++ (s.heap.size :: (s.slot.refs ++ owed))).count s.heap.size ≠ 0 := by
          rw [List.nil_append, List.count_cons_self]
          exact Nat.succ_ne_zero _
        exact absurd ((hresult.balanced.ledger.body_iff _).mp hnone)
          (hresult.balanced.ledger.count_ne_zero howed)
    obtain ⟨h₃, hrelease, hsame⟩ := releaseString hresult.balanced hkey
    have hgone (x : Ref) : s.heap.goneWith ObjectBody.children h₃ x =
        s.heap.goneWith ObjectBody.children h₂ x := by
      refine Finset.sum_congr rfl fun a ha => ?_
      rw [(hsame a (Finset.mem_range.mp ha).ne).1]
    refine ⟨{ s with heap := h₃ }, ?_, ?_, fun x hx => ?_, fun x hx => ?_⟩
    · show (s.heap.dictSet r key v >>= _) = _
      rw [hset]
      refine bind_eq_ok.mpr ⟨(h₃, true), bind_eq_ok.mpr ⟨h₂, hreplace, ?_⟩, rfl⟩
      rw [hrelease]
      rfl
    · show (h₃.body r).bind _ = _
      rw [(hsame r (hb.ne_size hself)).1, hresult.body]
      exact valueAt_setEntry he hlive v
    · show h₃.body x ≠ none
      rw [(hsame x (hne hx)).1]
      exact hresult.alive x hx
    · have hcounted := Replaces.Result.count_eq hr hresult x
      rw [goneWith_stringNew, count_stringNew_of_ne (hne hx), count_refs_of_mem hx] at hcounted
      show h₃.count x + e.value.refs.count x + s.heap.goneWith _ h₃ x = s.heap.count x + 1 + 0
      rw [(hsame x (hne hx)).2, hgone]
      exact hcounted

/-- What `bread_dict_set` does after its checks, with the string `k` made of its key. -/
def setChecked (h : ObjectHeap) (r k : Ref) (key : BreadString) (d : DictBody) (v : HeapValue) :
    Exec (ObjectHeap × Bool) := do
  match ← ObjectHeap.scan (h.holdsString key) 0 d.entries with
  | some slot =>
      let entry ← d.entryAt slot
      let h ← h.setEntryValue r d slot entry v
      return (← h.releaseRefs [k], true)
  | none =>
      if d.header.loadReached then
        let newCapacity ← d.header.grownCapacity
        if newCapacity < 0 then
          let h ← h.write r (.dict d)
          return (← h.releaseRefs [k], false)
        else
          let d ← ObjectHeap.compactLoop d.entries (d.emptied newCapacity)
          h.insertFirstFree r k d v
      else h.insertFirstFree r k d v

theorem dictSet_eq {key : BreadString}
    (hget : (h.stringNew (cString key)).2.getDict r = .ok d₀)
    (hmatch : (DictBody.mismatch d₀.keyType (.string (some h.size)) ||
      DictBody.mismatch d₀.valueType v) = false) :
    h.dictSet r key v = setChecked (h.stringNew (cString key)).2 r h.size key
      (d₀.adoptTypes (.string (some h.size)) v) v := by
  rw [Bool.or_eq_false_iff] at hmatch
  unfold ObjectHeap.dictSet
  dsimp only
  rw [hget]
  show (if DictBody.mismatch d₀.keyType (.string (some h.size)) = true then _ else _) = _
  rw [hmatch.1, if_neg Bool.false_ne_true, hmatch.2, if_neg Bool.false_ne_true]
  rfl

theorem dictSet_safe_iff {key : BreadString} (hb : Balanced ∅ s.heap (s.slot.refs ++ owed))
    (hroom : Countable s.heap) (hv : ∀ x ∈ v.refs, s.heap.body x ≠ none)
    (hplace : (Setter.dictSet r key).place s v = .ok (some place)) :
    (∃ s', (Setter.dictSet r key).perform s v = .ok (s', true) ∧ StoredSafely s s' place v) ↔
      (Setter.dictSet r key).Safe s owed place v := by
  have hplace' : s.heap.scannedPlace r key v = .ok (some place) := hplace
  unfold ObjectHeap.scannedPlace at hplace'
  dsimp only at hplace'
  obtain ⟨d₀, hget, hplace'⟩ := bind_eq_ok.mp hplace'
  have hbody₁ := getDict_spec d₀ hget
  have hbody : s.heap.body r = some (.dict d₀) := by
    have hne : r ≠ s.heap.size := by
      rintro rfl
      rw [show (s.heap.stringNew (cString key)).2.body s.heap.size = _ from
        body_create s.heap (.string (cString key))] at hbody₁
      cases hbody₁
    rwa [body_stringNew_of_ne hne] at hbody₁
  split at hplace'
  · cases hplace'
  rename_i hmatch
  have hset := dictSet_eq hget (Bool.not_eq_true _ ▸ hmatch)
  have hloses : Loses (d₀.adoptTypes (.string (some s.heap.size)) v) d₀.refs [] :=
    loses_nothing d₀
  have hsize : (s.heap.stringNew (cString key)).1 = s.heap.size := rfl
  rw [hsize] at hplace'
  generalize d₀.adoptTypes (.string (some s.heap.size)) v = d at hplace' hset hloses
  obtain ⟨found, hscan, hplace'⟩ := bind_eq_ok.mp hplace'
  rw [setChecked, hscan] at hset
  cases found with
  | some slot =>
      obtain ⟨e, hentry, hplace'⟩ := bind_eq_ok.mp hplace'
      cases hplace'
      obtain ⟨i, e', hi, he, htest⟩ := (scan_spec 0 d.entries (some slot) hscan).1 slot rfl
      obtain rfl : slot = i := by omega
      obtain rfl : e' = e := Option.some.inj (he.symm.trans (entryAt_spec e hentry))
      have hlive : e'.isLive = true := by
        rw [ObjectHeap.holdsString] at htest
        split at htest
        · assumption
        · cases htest
      refine found_safe_iff hb hroom hv hbody hloses he hlive (hset.trans ?_)
      show (d.entryAt slot >>= _) = _
      rw [hentry]
      rfl
  | none =>
      dsimp only at hplace'
      have hset' : s.heap.dictSet r key v = (if d.header.loadReached then do
          let newCapacity ← d.header.grownCapacity
          if newCapacity < 0 then
            let h ← (s.heap.stringNew (cString key)).2.write r (.dict d)
            return (← h.releaseRefs [s.heap.size], false)
          else
            let d ← ObjectHeap.compactLoop d.entries (d.emptied newCapacity)
            (s.heap.stringNew (cString key)).2.insertFirstFree r s.heap.size d v
        else (s.heap.stringNew (cString key)).2.insertFirstFree r s.heap.size d v) := hset
      have hinserted {d' : DictBody} (hloses' : Loses d' d₀.refs [])
          (hplaced : (do
            let found ← ObjectHeap.scan (fun e => .ok (!e.isOccupied || e.isDeleted)) 0 d'.entries
            return found.map fun slot => ⟨some (r, slot), .nil, .nil⟩) =
              (.ok (some place) : Exec (Option Place)))
          (hrun : s.heap.dictSet r key v =
            (s.heap.stringNew (cString key)).2.insertFirstFree r s.heap.size d' v) :
          (∃ s', (Setter.dictSet r key).perform s v = .ok (s', true) ∧
              StoredSafely s s' place v) ↔ (Setter.dictSet r key).Safe s owed place v := by
        obtain ⟨found, hfree, hfound⟩ := bind_eq_ok.mp hplaced
        obtain ⟨slot, rfl, rfl⟩ := Option.map_eq_some_iff.mp (Except.ok.inj hfound)
        exact inserted_safe_iff hb hroom hv hbody hloses' hfree hrun
      split at hplace'
      · rename_i hload
        rw [if_pos hload] at hset'
        obtain ⟨newCapacity, hgrown, hplace'⟩ := bind_eq_ok.mp hplace'
        split at hplace'
        · cases hplace'
        · rename_i hpositive
          obtain ⟨d', hcompact, hplace'⟩ := bind_eq_ok.mp hplace'
          refine hinserted (fun x => ?_) hplace' ?_
          · rw [compact_emptied_spec hgrown hpositive d' hcompact x]
            have hx := hloses x
            simpa using hx
          · rw [hset', hgrown]
            show (if newCapacity < 0 then _ else _) = _
            rw [if_neg hpositive, hcompact]
            rfl
      · rename_i hload
        rw [if_neg hload] at hset'
        exact hinserted hloses hplace' hset'

end ScannedPlace

end Setters

/-- **Stores.**  For every heap whose counts are those of its references, every setter and
every value that is alive: a call that stores to a place is safe exactly when what it needs
is held without the value in the place. -/
theorem store_safe_iff {s : StoreState} {owed : List Ref} {place : Place} {v : HeapValue}
    (op : Setter) (hb : Balanced ∅ s.heap (s.slot.refs ++ owed)) (hroom : Countable s.heap)
    (hv : ∀ x ∈ v.refs, s.heap.body x ≠ none)
    (hkey : ∀ d key, op = .dictSetSafe d key → ∀ x ∈ key.refs, s.heap.body x ≠ none)
    (hplace : op.place s v = .ok (some place)) :
    (∃ s', op.perform s v = .ok (s', true) ∧ StoredSafely s s' place v) ↔
      op.Safe s owed place v := by
  cases op with
  | arraySet a idx => exact arraySet_safe_iff hb hroom hplace
  | arraySetSafe a index => exact arraySetSafe_safe_iff hb hroom hplace
  | dictSet d key => exact dictSet_safe_iff hb hroom hv hplace
  | dictSetSafe d key => exact dictSetSafe_safe_iff hb hroom hv (hkey d key rfl) hplace
  | structSetField r name => exact structSetField_safe_iff hb hroom hplace
  | classSetField c name => exact classSetField_safe_iff hb hroom hplace
  | valueCopy source => exact valueCopy_safe_iff hb hroom hplace
  | valueAssign =>
      cases hplace
      exact iff_of_true (valueAssign_safe hb hroom hv) trivial

/-! ### An array that holds the only reference to its element -/

/-- A string, and an array that holds it. -/
def ownedElement : StoreState where
  heap := (ObjectHeap.create (ObjectHeap.create .empty (.string ['a'])).2
    (.array ⟨8, .typeString, [.string (some 0)]⟩)).2
  slot := .nil

/-- The place of the element. -/
def elementPlace : Place := ⟨some (1, 0), .string (some 0), .nil⟩

theorem balanced_ownedElement : Balanced ∅ ownedElement.heap (ownedElement.slot.refs ++ [1]) := by
  have hempty : Balanced ∅ (.empty : ObjectHeap) [] :=
    ⟨Ledger.congr ledger_empty fun _ => List.count_nil, fun x hx => absurd hx (Set.notMem_empty x)⟩
  have hstring : Balanced ∅ (ObjectHeap.create .empty (.string ['a'])).2 [0] := create_spec hempty
  exact create_spec hstring

theorem countable_ownedElement : Countable ownedElement.heap := by
  intro x
  show Function.update (Function.update (fun _ => 0) 0 1) 1 1 x + 1 < _
  rcases x with _ | _ | x <;> simp

theorem element_alive : ∀ x ∈ (HeapValue.string (some 0)).refs, ownedElement.heap.body x ≠ none := by
  intro x hx
  obtain rfl : x = 0 := List.mem_singleton.mp hx
  exact Option.some_ne_none _

theorem elementPlace_eq :
    (Setter.arraySet 1 0).place ownedElement (.string (some 0)) = .ok (some elementPlace) := rfl

theorem store_element_iff :
    (∃ s', (Setter.arraySet 1 0).perform ownedElement (.string (some 0)) = .ok (s', true) ∧
        StoredSafely ownedElement s' elementPlace (.string (some 0))) ↔
      (Setter.arraySet 1 0).Safe ownedElement [1] elementPlace (.string (some 0)) :=
  store_safe_iff (.arraySet 1 0) balanced_ownedElement countable_ownedElement element_alive
    (fun _ _ h => by cases h) elementPlace_eq

/-- The element is not held by anything but its slot. -/
theorem element_not_held :
    ¬ HeldWithout ownedElement.heap (ownedElement.slot.refs ++ [1]) 1 (.string (some 0)) 0 := by
  rintro ⟨set, hmem, hset⟩
  rcases hset 0 hmem with howed | ⟨a, -, hholds, hbeyond⟩
  · exact howed rfl
  · rcases a with _ | _ | a
    · exact List.not_mem_nil hholds
    · exact absurd (hbeyond rfl) (by decide)
    · exact List.not_mem_nil hholds

/-- Storing the element into its own slot destroys it. -/
theorem store_element_not_safe :
    ¬ ∃ s', (Setter.arraySet 1 0).perform ownedElement (.string (some 0)) = .ok (s', true) ∧
      StoredSafely ownedElement s' elementPlace (.string (some 0)) := by
  intro hstored
  have hsafe := (arraySet_safe_iff balanced_ownedElement countable_ownedElement
    elementPlace_eq).mp hstored
  rw [Setter.safe_of_holder (i := 0) rfl] at hsafe
  exact element_not_held (hsafe.2 0 (List.mem_singleton.mpr rfl))

end BreadLang
