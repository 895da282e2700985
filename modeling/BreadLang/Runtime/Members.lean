import BreadLang.Runtime.DictKeys

/-!
# Members

`bread_member_op` and `bread_member_set_op` with the functions that they call.  A member is
a field of a struct or of an instance, or a string key of a dictionary.  The read answers
`length` before it looks at the target, and the set of a field that is not there does
nothing.

## Main results

* `member_law_iff`: a set is read back and leaves the other members alone, unless the field
  does not exist or `length` is involved.
* `members_read_back`: what a set promises of the members other than `length`.
-/

namespace BreadLang

open RefCount

/-! ### The operations -/

/-- The name that `bread_member_op` answers itself. -/
def lengthName : Ident := "length".toList

/-- What a buffer of 256 bytes holds of a message. -/
def shortMessage (text : List Char) : String := String.ofList (text.take 255)

/-- A member of a target that has none. -/
def memberNotSupportedMessage (member : Ident) : String :=
  shortMessage ("Member '".toList ++ member ++ "' not supported for this type".toList)

/-- A field that a struct does not have. -/
def structFieldMessage (field typeName : Ident) : String :=
  shortMessage ("Struct field '".toList ++ field ++ "' not found in struct '".toList ++
    typeName ++ "'".toList)

/-- A field that an instance does not have. -/
def classFieldMessage (field className : Ident) : String :=
  shortMessage ("Class field '".toList ++ field ++ "' not found in class '".toList ++
    className ++ "'".toList)

/-- `bread_struct_get_field` and `bread_class_get_field`, with the value for the pointer to
it. -/
def fieldAt (names : List Ident) (values : List HeapValue) (name : Ident) :
    Exec (Option HeapValue) :=
  match ObjectHeap.findFieldIndex names name with
  | none => .ok none
  | some index =>
      match values[index]? with
      | some v => .ok (some v)
      | none => .error (.undefined .outOfBounds)

namespace ObjectHeap

/-- A clone of what has been found, or the error of a member that is not there. -/
def cloneFound (h : ObjectHeap) (message : String) :
    Option HeapValue → Exec (HeapValue × ObjectHeap)
  | some v => do return (v, ← h.valueClone v)
  | none => .error (nullError message)

/-- The `length` of a value, which is -1 for one that has none. -/
def memberLength (h : ObjectHeap) : HeapValue → Exec ℤ
  | .array a => do return (← h.arrayItems a).length
  | .string s => do return toInt (← h.stringContents s).length
  | .dict none => .ok 0
  | .dict (some r) => do return (← h.getDict r).count
  | _ => .ok (-1)

/-- `bread_member_op` on a target that is no optional. -/
def memberUnwrapped (h : ObjectHeap) (target : HeapValue) (member : Option Ident)
    (isOpt : Bool) : Exec (HeapValue × ObjectHeap) :=
  if member = some lengthName then do
    let length ← h.memberLength target
    if 0 ≤ length then return (.int (.wrap length), h)
    else .error (nullError "Member 'length' not supported for this type")
  else
    let member := member.getD []
    match target with
    | .dict d => do h.cloneFound (keyNotFoundMessage member) (← h.dictGet d member)
    | .struct none => .error (nullError "Cannot access field of null struct")
    | .struct (some r) =>
        match h.body r with
        | some (.struct s) => do
            h.cloneFound (structFieldMessage member s.typeName)
              (← fieldAt s.fieldNames s.fieldValues member)
        | _ => .error (.undefined .useAfterFree)
    | .class none => .error (nullError "Cannot access field of null class")
    | .class (some r) =>
        match h.body r with
        | some (.instance c) => do
            h.cloneFound (classFieldMessage member c.className)
              (← fieldAt c.fieldNames c.fieldValues member)
        | _ => .error (.undefined .useAfterFree)
    | _ =>
        if isOpt then .ok (.nil, h)
        else .error (nullError (memberNotSupportedMessage member))

/-- `bread_member_op`: the value in `out`.  It returns 1, or the process aborts.  Optional
chaining unwraps an optional, and what is none stays nil. -/
def memberOp (h : ObjectHeap) (target : HeapValue) (member : Option Ident) (isOpt : Bool) :
    Exec (HeapValue × ObjectHeap) :=
  match isOpt, target with
  | true, .nil => .ok (.nil, h)
  | true, .optional none => .ok (.nil, h)
  | true, .optional (some o) =>
      match h.body o with
      | some (.optional none) => .ok (.nil, h)
      | some (.optional (some v)) => do
          let h ← h.valueClone v
          let (out, h) ← h.memberUnwrapped v member isOpt
          return (out, ← h.valueRelease v)
      | _ => .error (.undefined .useAfterFree)
  | _, _ => h.memberUnwrapped target member isOpt

/-- `bread_member_set_op`.  It returns 1, or the process aborts. -/
def memberSetOp (h : ObjectHeap) (target : HeapValue) (member : Option Ident) (v : HeapValue) :
    Exec ObjectHeap :=
  match member with
  | none => .error (nullError "Null member name")
  | some name =>
      match target with
      | .struct none => .error (nullError "Cannot set field of null struct")
      | .struct (some r) => h.structSetField (some r) name v
      | .class none => .error (nullError "Cannot set field of null class")
      | .class (some r) => h.classSetField (some r) name v
      | .dict none => .error (nullError "Failed to set dictionary value")
      | .dict (some r) => do
          let (h, stored) ← h.dictSet r name v
          if stored then return h else .error (nullError "Failed to set dictionary value")
      | _ => .error (nullError "Member assignment not supported for this type")

end ObjectHeap

/-! ### Fields -/

section Fields

variable {names : List Ident} {values : List HeapValue} {m m' : Ident} {v : HeapValue}

theorem findFieldIndex_of_notMem (hm : m ∉ names) :
    ObjectHeap.findFieldIndex names m = none := by
  rw [ObjectHeap.findFieldIndex, List.findIdx?_eq_none_iff]
  intro x hx
  exact beq_eq_false_iff_ne.mpr fun heq => hm (heq ▸ hx)

/-- The position of a field. -/
theorem exists_findFieldIndex (hm : m ∈ names) :
    ∃ i, ObjectHeap.findFieldIndex names m = some i ∧ names[i]? = some m := by
  cases hfind : ObjectHeap.findFieldIndex names m with
  | none =>
      rw [ObjectHeap.findFieldIndex, List.findIdx?_eq_none_iff] at hfind
      exact absurd (hfind m hm) (by rw [beq_self_eq_true]; exact Bool.noConfusion)
  | some i =>
      rw [ObjectHeap.findFieldIndex, List.findIdx?_eq_some_iff_getElem] at hfind
      obtain ⟨hlt, hname, -⟩ := hfind
      exact ⟨i, rfl, (List.getElem?_eq_getElem hlt).trans (congrArg some (beq_iff_eq.mp hname))⟩

/-- **Setting a field** changes that field. -/
theorem fieldAt_set (hfilled : names.length = values.length) (hm : m ∈ names) (v : HeapValue) :
    ∃ i old, ObjectHeap.findFieldIndex names m = some i ∧ values[i]? = some old ∧
      fieldAt names (values.set i v) m = .ok (some v) ∧
        ∀ m', m' ≠ m → fieldAt names (values.set i v) m' = fieldAt names values m' := by
  obtain ⟨i, hfind, hname⟩ := exists_findFieldIndex hm
  obtain ⟨hlt, -⟩ := List.getElem?_eq_some_iff.mp hname
  have hlt' : i < values.length := hfilled ▸ hlt
  refine ⟨i, values[i], hfind, List.getElem?_eq_getElem hlt', ?_, fun m' hne => ?_⟩
  · rw [fieldAt, hfind]
    dsimp only
    rw [List.getElem?_set_self hlt']
  · rw [fieldAt, fieldAt]
    cases hfind' : ObjectHeap.findFieldIndex names m' with
    | none => rfl
    | some j =>
        have hij : i ≠ j := by
          rintro rfl
          rw [ObjectHeap.findFieldIndex, List.findIdx?_eq_some_iff_getElem] at hfind'
          obtain ⟨hlt, hname', -⟩ := hfind'
          rw [List.getElem?_eq_getElem hlt] at hname
          exact hne ((beq_iff_eq.mp hname').symm.trans (Option.some.inj hname))
        dsimp only
        rw [List.getElem?_set_ne hij]

end Fields

/-! ### Members of an object -/

namespace ObjectBody

/-- The value of an object that has members. -/
def asTarget (r : Ref) : ObjectBody → Option HeapValue
  | .struct _ => some (.struct (some r))
  | .instance _ => some (.class (some r))
  | .dict _ => some (.dict (some r))
  | _ => none

/-- Every field has a value, as `bread_struct_new` and `bread_class_new_with_methods`
make it. -/
def Filled : ObjectBody → Prop
  | .struct s => s.fieldNames.length = s.fieldValues.length
  | .instance c => c.fieldNames.length = c.fieldValues.length
  | _ => True

/-- The value of a member. -/
def memberValue (h : ObjectHeap) (m : Ident) : ObjectBody → Exec (Option HeapValue)
  | .struct s => fieldAt s.fieldNames s.fieldValues m
  | .instance c => fieldAt c.fieldNames c.fieldValues m
  | .dict d => h.firstValue m d.entries
  | _ => .ok none

/-- The message for a member that is not there. -/
def missingMessage (m : Ident) : ObjectBody → String
  | .struct s => structFieldMessage m s.typeName
  | .instance c => classFieldMessage m c.className
  | .dict _ => keyNotFoundMessage m
  | _ => memberNotSupportedMessage m

/-- The object has a place for a member: a dictionary for every key, the others for their
fields. -/
def HasPlace (m : Ident) : ObjectBody → Prop
  | .struct s => m ∈ s.fieldNames
  | .instance c => m ∈ c.fieldNames
  | .dict _ => True
  | _ => False

end ObjectBody

/-- What a read of a member returns. -/
def valueOr (message : String) : Option HeapValue → Exec HeapValue
  | some v => .ok v
  | none => .error (nullError message)

/-- The value of `length`. -/
def lengthValue (n : ℤ) : Option HeapValue :=
  if 0 ≤ n then some (.int (.wrap n)) else none

section Reading

variable {h h' : ObjectHeap} {owed : List Ref} {r : Ref} {b b' : ObjectBody} {d : DictBody}
  {target v : HeapValue} {m : Ident}

theorem memberOp_target (hbody : h.body r = some b) (htarget : b.asTarget r = some target)
    (hm : m ≠ lengthName) (isOpt : Bool) :
    h.memberOp target (some m) isOpt =
      b.memberValue h m >>= h.cloneFound (b.missingMessage m) := by
  have hname : some m ≠ some lengthName := fun heq => hm (Option.some.inj heq)
  cases b with
  | struct s =>
      cases htarget
      have hunwrapped : h.memberUnwrapped (.struct (some r)) (some m) isOpt =
          fieldAt s.fieldNames s.fieldValues m >>=
            h.cloneFound (structFieldMessage m s.typeName) := by
        rw [ObjectHeap.memberUnwrapped, if_neg hname]
        dsimp only
        rw [hbody]
        rfl
      cases isOpt <;> exact hunwrapped
  | «instance» c =>
      cases htarget
      have hunwrapped : h.memberUnwrapped (.class (some r)) (some m) isOpt =
          fieldAt c.fieldNames c.fieldValues m >>=
            h.cloneFound (classFieldMessage m c.className) := by
        rw [ObjectHeap.memberUnwrapped, if_neg hname]
        dsimp only
        rw [hbody]
        rfl
      cases isOpt <;> exact hunwrapped
  | dict d =>
      cases htarget
      have hunwrapped : h.memberUnwrapped (.dict (some r)) (some m) isOpt =
          h.firstValue m d.entries >>= h.cloneFound (keyNotFoundMessage m) := by
        rw [ObjectHeap.memberUnwrapped, if_neg hname, ← dictGet_eq hbody]
        rfl
      cases isOpt <;> exact hunwrapped
  | string _ => cases htarget
  | array _ => cases htarget
  | optional _ => cases htarget

theorem fieldAt_mem {names : List Ident} {values : List HeapValue}
    (hfound : fieldAt names values m = .ok (some v)) : v ∈ values := by
  rw [fieldAt] at hfound
  split at hfound
  · cases hfound
  split at hfound
  · cases hfound
    exact List.mem_of_getElem? ‹_›
  · cases hfound

/-- The value of a member is held by the object. -/
theorem memberValue_holds {x : Ref} (hbody : h.body r = some b)
    (hfound : b.memberValue h m = .ok (some v)) (hx : x ∈ v.refs) :
    h.Holds ObjectBody.children r x := by
  refine holds_iff.mpr ⟨b, hbody, ?_⟩
  cases b with
  | struct s => exact List.mem_flatMap.mpr ⟨v, fieldAt_mem hfound, hx⟩
  | «instance» c => exact List.mem_flatMap.mpr ⟨v, fieldAt_mem hfound, hx⟩
  | dict d =>
      obtain ⟨e, he, hlive, rfl⟩ := firstValue_mem hfound
      refine List.mem_flatMap.mpr ⟨e, he, ?_⟩
      rw [HeapEntry.refs, if_pos hlive]
      exact List.mem_append_right _ hx
  | string _ => cases hfound
  | array _ => cases hfound
  | optional _ => cases hfound

/-- **What a read returns**: the value of the member, or the error that it is not there. -/
theorem memberOp_value (hb : Balanced ∅ h owed) (hroom : Retainable h)
    (hbody : h.body r = some b) (htarget : b.asTarget r = some target) (hm : m ≠ lengthName)
    (isOpt : Bool) :
    Prod.fst <$> h.memberOp target (some m) isOpt =
      b.memberValue h m >>= valueOr (b.missingMessage m) := by
  rw [memberOp_target hbody htarget hm]
  cases hvalue : b.memberValue h m with
  | error s => rfl
  | ok found =>
      cases found with
      | none => rfl
      | some v =>
          obtain ⟨h', hclone, -⟩ := valueClone_returns hb (fun x hx => by
            have hpos := hb.ledger.incoming_pos (memberValue_holds hbody hvalue hx)
            have hcounted := hb.ledger.counted x
            omega) fun x _ => hroom x
          show Prod.fst <$> (h.valueClone v >>= fun h => .ok (v, h)) = .ok v
          rw [hclone]
          rfl

/-- What a read of `length` returns. -/
theorem memberOp_length {n : ℤ} (htarget : b.asTarget r = some target)
    (hlength : h.memberLength target = .ok n) (isOpt : Bool) :
    Prod.fst <$> h.memberOp target (some lengthName) isOpt =
      valueOr "Member 'length' not supported for this type" (lengthValue n) := by
  have hunwrapped : Prod.fst <$> h.memberUnwrapped target (some lengthName) isOpt =
      valueOr "Member 'length' not supported for this type" (lengthValue n) := by
    rw [ObjectHeap.memberUnwrapped, if_pos rfl, hlength, lengthValue]
    show Prod.fst <$> (if 0 ≤ n then _ else _) = _
    split <;> rfl
  cases b with
  | struct s =>
      cases htarget
      cases isOpt <;> exact hunwrapped
  | «instance» c =>
      cases htarget
      cases isOpt <;> exact hunwrapped
  | dict d =>
      cases htarget
      cases isOpt <;> exact hunwrapped
  | string _ => cases htarget
  | array _ => cases htarget
  | optional _ => cases htarget

theorem memberLength_dict (hbody : h.body r = some (.dict d)) :
    h.memberLength (.dict (some r)) = .ok d.count := by
  rw [ObjectHeap.memberLength, ObjectHeap.getDict, hbody]
  rfl

theorem valueOr_inj {message : String} {o o' : Option HeapValue} :
    valueOr message o = valueOr message o' ↔ o = o' := by
  cases o <;> cases o' <;> simp [valueOr]

/-- A read returns a value exactly when that is its first component. -/
theorem reads_iff {target : HeapValue} {isOpt : Bool} :
    (∃ h', h.memberOp target (some m) isOpt = .ok (v, h')) ↔
      Prod.fst <$> h.memberOp target (some m) isOpt = .ok v := by
  cases h.memberOp target (some m) isOpt with
  | error s => simp
  | ok result =>
      refine ⟨?_, fun heq => ⟨result.2, ?_⟩⟩
      · rintro ⟨h', heq⟩
        rw [Except.ok.inj heq]
        rfl
      · rw [← Except.ok.inj heq]

end Reading

/-! ### The law of members -/

/-- **Member access reads back what was written.**  After a set that returns 1 the member
has the value, and the other members that the object had are read as before.  A set for
which there is no place reports an error. -/
structure MemberLaw (h : ObjectHeap) (b : ObjectBody) (target : HeapValue) (m : Ident)
    (v : HeapValue) : Prop where
  readsBack : ∀ h', h.memberSetOp target (some m) v = .ok h' → ∀ isOpt,
    ∃ h'', h'.memberOp target (some m) isOpt = .ok (v, h'')
  others : ∀ h', h.memberSetOp target (some m) v = .ok h' → ∀ m' isOpt, nul ∉ m' → m' ≠ m →
    (∃ w, b.memberValue h m' = .ok (some w)) →
      Prod.fst <$> h'.memberOp target (some m') isOpt =
        Prod.fst <$> h.memberOp target (some m') isOpt
  refused : ¬ b.HasPlace m → ∃ e, h.memberSetOp target (some m) v = .error (.abort e)

/-- A key that `length` does not hide: it is another one and no entry `length` counts the
entries instead, or it happens to be set to their number.  Nothing is asked of a pair that
the dictionary refuses. -/
def DictBody.Settable (h : ObjectHeap) (r : Ref) (m : Ident) (v : HeapValue) (d : DictBody) :
    Prop :=
  ∀ place, h.scannedPlace r m v = .ok (some place) →
    if m = lengthName then lengthValue (d.countAfter h m) = some v
    else (∃ w, h.firstValue lengthName d.entries = .ok (some w)) →
      lengthValue (d.countAfter h m) = lengthValue d.count

/-- **When the law holds.**  A struct and an instance have the field, and it is not
`length`. -/
def ObjectBody.Settable (h : ObjectHeap) (r : Ref) (m : Ident) (v : HeapValue) :
    ObjectBody → Prop
  | .struct s => m ∈ s.fieldNames ∧ m ≠ lengthName
  | .instance c => m ∈ c.fieldNames ∧ m ≠ lengthName
  | .dict d => d.Settable h r m v
  | _ => False

/-- **A member has been set.** -/
structure MemberStored (h h' : ObjectHeap) (owed : List Ref) (r : Ref) (b b' : ObjectBody)
    (m : Ident) (v : HeapValue) : Prop where
  balanced : Balanced ∅ h' owed
  retainable : Retainable h'
  body : h'.body r = some b'
  target : b'.asTarget r = b.asTarget r
  message : ∀ m', b'.missingMessage m' = b.missingMessage m'
  value : b'.memberValue h' m = .ok (some v)
  others : ∀ m', nul ∉ m' → m' ≠ m → b'.memberValue h' m' = b.memberValue h m'

section Law

variable {h h' : ObjectHeap} {owed : List Ref} {r : Ref} {b b' : ObjectBody} {d d' : DictBody}
  {target v : HeapValue} {m m' : Ident} {isOpt : Bool}

theorem MemberStored.reads (hs : MemberStored h h' owed r b b' m v)
    (htarget : b.asTarget r = some target) (hm : m ≠ lengthName) :
    ∃ h'', h'.memberOp target (some m) isOpt = .ok (v, h'') := by
  rw [reads_iff, memberOp_value hs.balanced hs.retainable hs.body (hs.target.trans htarget) hm,
    hs.value]
  rfl

theorem MemberStored.reads_other (hs : MemberStored h h' owed r b b' m v)
    (hb : Balanced ∅ h owed) (hroom : Retainable h) (hbody : h.body r = some b)
    (htarget : b.asTarget r = some target) (hnul : nul ∉ m') (hne : m' ≠ m)
    (hm' : m' ≠ lengthName) :
    Prod.fst <$> h'.memberOp target (some m') isOpt =
      Prod.fst <$> h.memberOp target (some m') isOpt := by
  rw [memberOp_value hb hroom hbody htarget hm',
    memberOp_value hs.balanced hs.retainable hs.body (hs.target.trans htarget) hm',
    hs.others m' hnul hne, hs.message]

theorem structSetField_stored {s : StructBody} (hb : Balanced ∅ h owed) (hroom : Countable h)
    (hbody : h.body r = some (.struct s)) (hfilled : s.fieldNames.length = s.fieldValues.length)
    (hr : r ∈ owed) (hv : ∀ x ∈ v.refs, x ∈ owed) (hm : m ∈ s.fieldNames) :
    ∃ h' b', h.structSetField (some r) m v = .ok h' ∧
      MemberStored h h' owed r (.struct s) b' m v := by
  obtain ⟨i, old, hfind, hold, hself, hothers⟩ := fieldAt_set hfilled hm v
  obtain ⟨h', hreplace, hbody', hb', hroom'⟩ := replaceElement_returns
    (fun vs => .struct { s with fieldValues := vs }) hb hroom (fun _ => ⟨id, rfl⟩) hbody hold hr hv
  refine ⟨h', _, ?_, hb', hroom', hbody', rfl, fun _ => rfl, hself, fun m' _ hne => hothers m' hne⟩
  rw [ObjectHeap.structSetField, hbody]
  dsimp only
  rw [hfind]
  dsimp only
  rw [hold]
  exact hreplace

theorem classSetField_stored {c : ClassBody} (hb : Balanced ∅ h owed) (hroom : Countable h)
    (hbody : h.body r = some (.instance c))
    (hfilled : c.fieldNames.length = c.fieldValues.length)
    (hr : r ∈ owed) (hv : ∀ x ∈ v.refs, x ∈ owed) (hm : m ∈ c.fieldNames) :
    ∃ h' b', h.classSetField (some r) m v = .ok h' ∧
      MemberStored h h' owed r (.instance c) b' m v := by
  obtain ⟨i, old, hfind, hold, hself, hothers⟩ := fieldAt_set hfilled hm v
  obtain ⟨h', hreplace, hbody', hb', hroom'⟩ := replaceElement_returns
    (fun vs => .instance { c with fieldValues := vs }) hb hroom (fun _ => ⟨id, rfl⟩) hbody hold
    hr hv
  refine ⟨h', _, ?_, hb', hroom', hbody', rfl, fun _ => rfl, hself, fun m' _ hne => hothers m' hne⟩
  rw [ObjectHeap.classSetField, hbody]
  dsimp only
  rw [hfind]
  dsimp only
  rw [hold]
  exact hreplace

/-- A field that is not there is not set, and nothing is reported. -/
theorem structSetField_missing {s : StructBody} (hbody : h.body r = some (.struct s))
    (hm : m ∉ s.fieldNames) : h.structSetField (some r) m v = .ok h := by
  rw [ObjectHeap.structSetField, hbody]
  dsimp only
  rw [findFieldIndex_of_notMem hm]

theorem classSetField_missing {c : ClassBody} (hbody : h.body r = some (.instance c))
    (hm : m ∉ c.fieldNames) : h.classSetField (some r) m v = .ok h := by
  rw [ObjectHeap.classSetField, hbody]
  dsimp only
  rw [findFieldIndex_of_notMem hm]

/-- **The law of fields.** -/
theorem fields_law_iff {names : List Ident} (hb : Balanced ∅ h owed) (hroom : Retainable h)
    (hbody : h.body r = some b) (htarget : b.asTarget r = some target)
    (hlength : ∀ h : ObjectHeap, h.memberLength target = .ok (-1))
    (hplace : b.HasPlace m ↔ m ∈ names)
    (hmissing : m ∉ names → h.memberSetOp target (some m) v = .ok h)
    (hstored : m ∈ names → ∃ h' b', h.memberSetOp target (some m) v = .ok h' ∧
      MemberStored h h' owed r b b' m v) :
    MemberLaw h b target m v ↔ m ∈ names ∧ m ≠ lengthName := by
  constructor
  · intro hlaw
    have hm : m ∈ names := by
      by_contra hm
      obtain ⟨e, herror⟩ := hlaw.refused fun h => hm (hplace.mp h)
      rw [hmissing hm] at herror
      cases herror
    refine ⟨hm, ?_⟩
    rintro rfl
    obtain ⟨h', b', hset, hs⟩ := hstored hm
    obtain ⟨h'', hread⟩ := hlaw.readsBack h' hset false
    have hvalue := reads_iff.mp ⟨h'', hread⟩
    rw [memberOp_length (hs.target.trans htarget) (hlength h')] at hvalue
    cases hvalue
  · rintro ⟨hm, hne⟩
    obtain ⟨h', b', hset, hs⟩ := hstored hm
    refine ⟨fun h₁ hset₁ isOpt => ?_, fun h₁ hset₁ m' isOpt hnul hother _ => ?_,
      fun hplace' => absurd (hplace.mpr hm) hplace'⟩
    · rw [hset] at hset₁
      obtain rfl := Except.ok.inj hset₁
      exact hs.reads htarget hne
    · rw [hset] at hset₁
      obtain rfl := Except.ok.inj hset₁
      by_cases hm' : m' = lengthName
      · rw [hm', memberOp_length htarget (hlength h),
          memberOp_length (hs.target.trans htarget) (hlength h')]
      · exact hs.reads_other hb hroom hbody htarget hnul hother hm'

/-- The dictionary with a key that has been set. -/
theorem DictStored.member (hs : DictStored h h' owed r d d' m v) (hm : nul ∉ m) :
    MemberStored h h' owed r (.dict d) (.dict d') m v := by
  refine ⟨hs.balanced, hs.retainable, hs.body, rfl, fun _ => rfl, hs.value, fun m' hnul hne => ?_⟩
  refine hs.others m' ?_
  rwa [cString_of_notMem hnul, cString_of_notMem hm]

/-- A set of a key that returns has a place for it. -/
theorem memberSetOp_dict (hb : Balanced ∅ h owed) (hroom : Countable h)
    (hbody : h.body r = some (.dict d)) (hr : r ∈ owed) (hv : ∀ x ∈ v.refs, x ∈ owed)
    (hset : h.memberSetOp (.dict (some r)) (some m) v = .ok h') :
    ∃ place d', h.scannedPlace r m v = .ok (some place) ∧ DictStored h h' owed r d d' m v := by
  obtain ⟨⟨h₁, stored⟩, hdict, hrest⟩ := bind_eq_ok.mp hset
  cases stored with
  | false => cases hrest
  | true =>
      cases hrest
      obtain ⟨place, hplace⟩ := scannedPlace_of_dictSet hdict
      obtain ⟨h₂, d', hdict', hs⟩ := dictSet_stored hb hroom hbody hr hv hplace
      rw [hdict] at hdict'
      cases hdict'
      exact ⟨place, d', hplace, hs⟩

/-- **The law of keys.** -/
theorem keys_law_iff (hb : Balanced ∅ h owed) (hroom : Countable h)
    (hbody : h.body r = some (.dict d)) (hr : r ∈ owed) (hv : ∀ x ∈ v.refs, x ∈ owed)
    (hm : nul ∉ m) : MemberLaw h (.dict d) (.dict (some r)) m v ↔ d.Settable h r m v := by
  have htarget : (ObjectBody.dict d).asTarget r = some (.dict (some r)) := rfl
  have hlength {h₁ : ObjectHeap} {d₁ : DictBody} (hbody₁ : h₁.body r = some (.dict d₁))
      (isOpt : Bool) : Prod.fst <$> h₁.memberOp (.dict (some r)) (some lengthName) isOpt =
        valueOr "Member 'length' not supported for this type" (lengthValue d₁.count) :=
    memberOp_length (b := .dict d₁) rfl (memberLength_dict hbody₁) isOpt
  constructor
  · intro hlaw place hplace
    obtain ⟨h', d', hset, hs⟩ := dictSet_stored hb hroom hbody hr hv hplace
    have hset' : h.memberSetOp (.dict (some r)) (some m) v = .ok h' := by
      show (h.dictSet r m v >>= _) = _
      rw [hset]
      rfl
    split
    · rename_i hname
      have hread := reads_iff.mp (hlaw.readsBack h' hset' false)
      rw [← hs.count]
      rw [hname, hlength hs.body] at hread
      exact valueOr_inj.mp (hread.trans (show .ok v = valueOr _ (some v) from rfl))
    · rename_i hname
      intro hkey
      have hnul : nul ∉ lengthName := by decide
      have hread := hlaw.others h' hset' lengthName false hnul (Ne.symm hname) hkey
      rw [hlength hs.body, hlength hbody] at hread
      rw [← hs.count]
      exact valueOr_inj.mp hread
  · intro hsettable
    have hstored {h' : ObjectHeap} (hset : h.memberSetOp (.dict (some r)) (some m) v = .ok h') :
        ∃ d', DictStored h h' owed r d d' m v ∧
          if m = lengthName then lengthValue d'.count = some v
          else (∃ w, h.firstValue lengthName d.entries = .ok (some w)) →
            lengthValue d'.count = lengthValue d.count := by
      obtain ⟨place, d', hplace, hs⟩ := memberSetOp_dict hb hroom hbody hr hv hset
      refine ⟨d', hs, ?_⟩
      rw [hs.count]
      exact hsettable place hplace
    refine ⟨fun h' hset isOpt => ?_, fun h' hset m' isOpt hnul hne hkey => ?_,
      fun hplace => absurd trivial hplace⟩
    · obtain ⟨d', hs, hcond⟩ := hstored hset
      by_cases hname : m = lengthName
      · rw [if_pos hname] at hcond
        rw [reads_iff, hname, hlength hs.body, hcond]
        rfl
      · exact (hs.member hm).reads htarget hname
    · obtain ⟨d', hs, hcond⟩ := hstored hset
      by_cases hname' : m' = lengthName
      · rw [if_neg fun hname => hne (hname'.trans hname.symm)] at hcond
        rw [hname'] at hkey ⊢
        rw [hlength hs.body, hlength hbody, hcond hkey]
      · exact (hs.member hm).reads_other hb hroom.retainable hbody htarget hnul hne hname'

/-- **Members.**  For every struct, instance and dictionary that the caller refers to, every
name and every value: the law holds exactly when the field exists and `length` does not
come in between. -/
theorem member_law_iff (hb : Balanced ∅ h owed) (hroom : Countable h)
    (hbody : h.body r = some b) (htarget : b.asTarget r = some target) (hfilled : b.Filled)
    (hr : r ∈ owed) (hv : ∀ x ∈ v.refs, x ∈ owed) (hm : nul ∉ m) :
    MemberLaw h b target m v ↔ b.Settable h r m v := by
  cases b with
  | struct s =>
      cases htarget
      exact fields_law_iff hb hroom.retainable hbody rfl (fun _ => rfl) Iff.rfl
        (structSetField_missing hbody) (structSetField_stored hb hroom hbody hfilled hr hv)
  | «instance» c =>
      cases htarget
      exact fields_law_iff hb hroom.retainable hbody rfl (fun _ => rfl) Iff.rfl
        (classSetField_missing hbody) (classSetField_stored hb hroom hbody hfilled hr hv)
  | dict d =>
      cases htarget
      exact keys_law_iff hb hroom hbody hr hv hm
  | string _ => cases htarget
  | array _ => cases htarget
  | optional _ => cases htarget

/-- **What a set of a member promises**, with `length` left to the built-in property: the
member has the value, and the others are read as before. -/
structure ReadBack (h h' : ObjectHeap) (target : HeapValue) (m : Ident) (v : HeapValue) :
    Prop where
  reads : ∀ isOpt, ∃ h'', h'.memberOp target (some m) isOpt = .ok (v, h'')
  others : ∀ m' isOpt, nul ∉ m' → m' ≠ m → m' ≠ lengthName →
    Prod.fst <$> h'.memberOp target (some m') isOpt =
      Prod.fst <$> h.memberOp target (some m') isOpt

theorem MemberStored.readBack (hs : MemberStored h h' owed r b b' m v) (hb : Balanced ∅ h owed)
    (hroom : Retainable h) (hbody : h.body r = some b) (htarget : b.asTarget r = some target)
    (hm : m ≠ lengthName) : ReadBack h h' target m v :=
  ⟨fun _ => hs.reads htarget hm,
    fun _ _ hnul hne hm' => hs.reads_other hb hroom hbody htarget hnul hne hm'⟩

/-- What a set that returns has done. -/
theorem memberSetOp_stored (hb : Balanced ∅ h owed) (hroom : Countable h)
    (hbody : h.body r = some b) (htarget : b.asTarget r = some target) (hfilled : b.Filled)
    (hr : r ∈ owed) (hv : ∀ x ∈ v.refs, x ∈ owed) (hm : nul ∉ m)
    (hset : h.memberSetOp target (some m) v = .ok h') :
    (b.HasPlace m → ∃ b', MemberStored h h' owed r b b' m v) ∧ (¬ b.HasPlace m → h' = h) := by
  cases b with
  | struct s =>
      cases htarget
      have hrun : h.structSetField (some r) m v = .ok h' := hset
      refine ⟨fun hplace => ?_, fun hplace => ?_⟩
      · obtain ⟨h₁, b', hset', hs⟩ := structSetField_stored hb hroom hbody hfilled hr hv hplace
        obtain rfl := Except.ok.inj (hrun.symm.trans hset')
        exact ⟨b', hs⟩
      · exact Except.ok.inj (hrun.symm.trans (structSetField_missing hbody hplace))
  | «instance» c =>
      cases htarget
      have hrun : h.classSetField (some r) m v = .ok h' := hset
      refine ⟨fun hplace => ?_, fun hplace => ?_⟩
      · obtain ⟨h₁, b', hset', hs⟩ := classSetField_stored hb hroom hbody hfilled hr hv hplace
        obtain rfl := Except.ok.inj (hrun.symm.trans hset')
        exact ⟨b', hs⟩
      · exact Except.ok.inj (hrun.symm.trans (classSetField_missing hbody hplace))
  | dict d =>
      cases htarget
      refine ⟨fun _ => ?_, fun hplace => absurd trivial hplace⟩
      obtain ⟨-, d', -, hs⟩ := memberSetOp_dict hb hroom hbody hr hv hset
      exact ⟨.dict d', hs.member hm⟩
  | string _ => cases htarget
  | array _ => cases htarget
  | optional _ => cases htarget

/-- **Members read back what was written.**  For every struct, instance and dictionary that
the caller refers to, every value and every name but `length`: after a set that returns 1
the member has the value and the others are read as before.  A set for which there is no
place changes nothing. -/
theorem members_read_back (hb : Balanced ∅ h owed) (hroom : Countable h)
    (hbody : h.body r = some b) (htarget : b.asTarget r = some target) (hfilled : b.Filled)
    (hr : r ∈ owed) (hv : ∀ x ∈ v.refs, x ∈ owed) (hm : nul ∉ m)
    (hset : h.memberSetOp target (some m) v = .ok h') :
    (b.HasPlace m → m ≠ lengthName → ReadBack h h' target m v) ∧
      (¬ b.HasPlace m → h' = h) := by
  obtain ⟨hstored, hmissing⟩ := memberSetOp_stored hb hroom hbody htarget hfilled hr hv hm hset
  refine ⟨fun hplace hname => ?_, hmissing⟩
  obtain ⟨b', hs⟩ := hstored hplace
  exact hs.readBack hb hroom.retainable hbody htarget hname

/-- A struct with the fields `x` and `length`. -/
def measured : StructBody := ⟨['M'], [['x'], lengthName], [.int 7, .int 3]⟩

/-- The struct on the heap. -/
def oneMeasured : ObjectHeap :=
  (ObjectHeap.create .empty (.struct measured)).2

theorem balanced_oneMeasured : Balanced ∅ oneMeasured [0] := by
  have hempty : Balanced ∅ (.empty : ObjectHeap) [] :=
    ⟨Ledger.congr ledger_empty fun _ => List.count_nil,
      fun x hx => absurd hx (Set.notMem_empty x)⟩
  exact create_spec hempty

theorem countable_oneMeasured : Countable oneMeasured := by
  intro x
  show Function.update (fun _ => 0) 0 1 x + 1 < _
  rcases x with _ | x <;> simp

theorem members_read_back_field :
    ∃ h', oneMeasured.memberSetOp (.struct (some 0)) (some ['x']) (.int 5) = .ok h' ∧
      ((ObjectBody.struct measured).HasPlace ['x'] → (['x'] : Ident) ≠ lengthName →
          ReadBack oneMeasured h' (.struct (some 0)) ['x'] (.int 5)) ∧
        (¬ (ObjectBody.struct measured).HasPlace ['x'] → h' = oneMeasured) := by
  have hv : ∀ x ∈ (HeapValue.int 5).refs, x ∈ [0] := fun x hx => absurd hx List.not_mem_nil
  have hx : (['x'] : Ident) ∈ measured.fieldNames := List.mem_cons_self
  obtain ⟨h', b', hset, -⟩ := structSetField_stored (s := measured) (v := .int 5)
    balanced_oneMeasured countable_oneMeasured rfl rfl (List.mem_singleton_self 0) hv hx
  exact ⟨h', hset, members_read_back (b := .struct measured) balanced_oneMeasured
    countable_oneMeasured rfl rfl rfl (List.mem_singleton_self 0) hv (by decide) hset⟩

/-- The field `length` can be set and cannot be read. -/
theorem length_field_not_read :
    ¬ MemberLaw oneMeasured (.struct measured) (.struct (some 0)) lengthName (.int 5) := by
  intro hlaw
  have hsettable := (member_law_iff (b := .struct measured) balanced_oneMeasured
    countable_oneMeasured rfl rfl rfl (List.mem_singleton_self 0)
    (fun x hx => absurd hx List.not_mem_nil) (by decide)).mp hlaw
  exact hsettable.2 rfl

end Law

end BreadLang
