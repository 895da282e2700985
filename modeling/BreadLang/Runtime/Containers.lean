import BreadLang.Runtime.Objects

/-!
# Arrays, dictionaries, optionals and structs on the heap

The constructors and mutators, on a pointer that may be `NULL`.  They clone every value
that they store and release every value that they overwrite, with the exceptions that the
sources make: a dictionary literal fills the slot that it finds without looking whether it
is occupied, and so does the growth of a dictionary.

An error that stops the process is an abort; the others are returned.
-/

namespace BreadLang

/-! ### Arrays -/

namespace ArrayBody

/-- `bread_array_new_with_capacity`, without the object. -/
def new (capacity : ℤ) (elementType : VarType) : ArrayBody where
  capacity := capacity
  elementType := elementType
  items := []

/-- The number of elements. -/
def count (a : ArrayBody) : ℤ :=
  a.items.length

/-- The check of a value against the element type. -/
def mismatch (a : ArrayBody) (v : HeapValue) : Bool :=
  a.elementType != .typeNil && a.elementType != v.type

/-- An empty array without an element type takes that of its first element. -/
def adoptType (a : ArrayBody) (v : HeapValue) : ArrayBody :=
  { a with
    elementType :=
      if a.elementType = .typeNil ∧ a.count = 0 then v.type else a.elementType }

/-- `array->capacity == 0 ? 8 : array->capacity * 2`. -/
def grownCapacity (a : ArrayBody) : Exec ℤ :=
  if a.capacity = 0 then .ok 8 else checkedInt (a.capacity * 2)

/-- The growth step of `bread_array_append` and `bread_array_insert`. -/
def growIfFull (a : ArrayBody) : Exec ArrayBody :=
  if a.capacity ≤ a.count then do
    let newCap ← a.grownCapacity
    return { a with capacity := newCap }
  else .ok a

/-- `index < 0 ? array->count + index : index`. -/
def resolve (a : ArrayBody) (index : ℤ) : ℤ :=
  if index < 0 then a.count + index else index

/-- The type error of a value, with the words for what is done with it. -/
def typeError (a : ArrayBody) (v : HeapValue) (verb preposition : String) : BreadError where
  type := .typeMismatch
  message := "Type mismatch: cannot " ++ verb ++ " value of type " ++ toString v.type.code ++
    " " ++ preposition ++ " array of type " ++ toString a.elementType.code

/-- The error of an index, on which the process aborts. -/
def indexError (a : ArrayBody) (index : ℤ) (what : String) : BreadError where
  type := .indexOutOfBounds
  message := what ++ " index " ++ toString index ++
    " out of bounds for array of length " ++ toString a.count

/-- The array with another value in a slot. -/
def setItem (a : ArrayBody) (i : ℕ) (v : HeapValue) : ArrayBody :=
  { a with items := a.items.set i v }

end ArrayBody

/-- The error of a null pointer, on which the process aborts. -/
def nullError (message : String) : Stop :=
  .abort { type := .runtimeError, message := message }

namespace ObjectHeap

/-- The array at an address. -/
def getArray (h : ObjectHeap) (r : Ref) : Exec ArrayBody :=
  match h.body r with
  | some (.array a) => .ok a
  | _ => .error (.undefined .useAfterFree)

/-- `bread_array_new_with_capacity`, and with a capacity of zero `bread_array_new_typed`
and `bread_array_new`. -/
def arrayNew (h : ObjectHeap) (capacity : ℤ) (elementType : VarType) : Ref × ObjectHeap :=
  h.create (.array (.new capacity elementType))

/-- `bread_array_append`. -/
def arrayAppend (h : ObjectHeap) (a : Option Ref) (v : HeapValue) : Exec (ObjectHeap × Bool) :=
  match a with
  | none => .ok (h, false)
  | some r => do
      let a ← h.getArray r
      if a.mismatch v then return (h, false)
      else
        let a ← (a.adoptType v).growIfFull
        let h ← h.valueClone v
        let h ← h.write r (.array { a with items := a.items ++ [v] })
        return (h, true)

/-- The last part of `bread_array_set` and `bread_array_set_safe`. -/
def setItem (h : ObjectHeap) (r : Ref) (a : ArrayBody) (i : ℕ) (v : HeapValue) :
    Exec ObjectHeap :=
  match a.items[i]? with
  | none => .error (.undefined .outOfBounds)
  | some old => h.replaceValue r (.array (a.setItem i .nil)) old v (.array (a.setItem i v))

/-- `bread_array_set`. -/
def arraySet (h : ObjectHeap) (a : Option Ref) (idx : ℤ) (v : HeapValue) :
    Exec (ObjectHeap × Bool) :=
  match a with
  | none => .ok (h, false)
  | some r => do
      let a ← h.getArray r
      if idx < 0 ∨ a.count ≤ idx then return (h, false)
      else if a.mismatch v then return (h, false)
      else return (← h.setItem r a idx.toNat v, true)

/-- `bread_array_set_safe`. -/
def arraySetSafe (h : ObjectHeap) (a : Option Ref) (index : ℤ) (v : HeapValue) :
    Exec (ObjectHeap × Except BreadError Unit) :=
  match a with
  | none => .error (nullError "Cannot set element of null array")
  | some r => do
      let a ← h.getArray r
      let index := a.resolve index
      if index < 0 ∨ a.count ≤ index then .error (.abort (a.indexError index "Array"))
      else if a.mismatch v then return (h, .error (a.typeError v "assign" "to"))
      else return (← h.setItem r a index.toNat v, .ok ())

/-- The loop that `bread_array_from_literal` and `bread_array_repeating` store clones
with. -/
def storeItems (h : ObjectHeap) (r : Ref) (a : ArrayBody) : List HeapValue → Exec ObjectHeap
  | [] => .ok h
  | v :: vs => do
      let h ← h.valueClone v
      let a := { a with items := a.items ++ [v] }
      let h ← h.write r (.array a)
      h.storeItems r a vs

/-- The error of a literal whose elements differ in type. -/
def literalElementError : BreadError where
  type := .typeMismatch
  message := "Array literal elements must have the same type"

/-- The type of the first element of a literal. -/
def literalType (elements : List HeapValue) : VarType :=
  match elements with
  | [] => .typeNil
  | v :: _ => v.type

/-- `bread_array_from_literal`.  It returns `NULL` after recording an error. -/
def arrayFromLiteral (h : ObjectHeap) (elements : List HeapValue) :
    Exec (Option Ref × ObjectHeap × Except BreadError Unit) :=
  if elements.any fun v => v.type != literalType elements then
    .ok (none, h, .error literalElementError)
  else do
    let a := ArrayBody.new elements.length (literalType elements)
    let (r, h) := h.create (.array a)
    let h ← h.storeItems r a elements
    return (some r, h, .ok ())

/-- `bread_array_repeating`. -/
def arrayRepeating (h : ObjectHeap) (v : HeapValue) (count : ℤ) : Exec (Ref × ObjectHeap) :=
  if count < 0 then .error (nullError "Array repeat count cannot be negative")
  else do
    let a := ArrayBody.new count v.type
    let (r, h) := h.create (.array a)
    let h ← h.storeItems r a (List.replicate count.toNat v)
    return (r, h)

/-- `bread_array_insert`. -/
def arrayInsert (h : ObjectHeap) (a : Option Ref) (v : HeapValue) (index : ℤ) :
    Exec (ObjectHeap × Except BreadError Unit) :=
  match a with
  | none => .error (nullError "Cannot insert into null array")
  | some r => do
      let a ← h.getArray r
      let index := a.resolve index
      if index < 0 ∨ a.count < index then .error (.abort (a.indexError index "Insert"))
      else if a.mismatch v then return (h, .error (a.typeError v "insert" "into"))
      else
        let a ← (a.adoptType v).growIfFull
        let h ← h.valueClone v
        let h ← h.write r (.array { a with items := a.items.insertIdx index.toNat v })
        return (h, .ok ())

/-- `bread_array_remove_at`.  It returns a clone of the element. -/
def arrayRemoveAt (h : ObjectHeap) (a : Option Ref) (index : ℤ) :
    Exec (HeapValue × ObjectHeap) :=
  match a with
  | none => .error (nullError "Cannot remove from null array")
  | some r => do
      let a ← h.getArray r
      let index := a.resolve index
      if index < 0 then .error (.abort (a.indexError index "Remove"))
      else
        match a.items[index.toNat]? with
        | none => .error (.abort (a.indexError index "Remove"))
        | some v => do
            let h ← h.valueClone v
            let h ← h.write r (.array (a.setItem index.toNat .nil))
            let h ← h.valueRelease v
            let h ← h.write r (.array { a with items := a.items.eraseIdx index.toNat })
            return (v, h)

end ObjectHeap

/-! ### Dictionaries -/

namespace DictBody

/-- `bread_dict_new_with_capacity`, without the object. -/
def new (capacity : ℤ) (keyType valueType : VarType) : DictBody where
  count := 0
  capacity := capacity
  keyType := keyType
  valueType := valueType
  entries := List.replicate capacity.toNat .zero
  sized := List.length_replicate

/-- The fields that decide on the growth. -/
def header (d : DictBody) : BreadDict where
  count := d.count
  capacity := d.capacity
  keyType := d.keyType
  valueType := d.valueType
  entries := []

/-- `dict->entries[slot]`. -/
def entryAt (d : DictBody) (slot : ℕ) : Exec HeapEntry :=
  match d.entries[slot]? with
  | some entry => .ok entry
  | none => .error (.undefined .outOfBounds)

/-- The dictionary with another entry in a slot. -/
def setEntry (d : DictBody) (slot : ℕ) (entry : HeapEntry) : DictBody :=
  { d with
    entries := d.entries.set slot entry
    sized := List.length_set.trans d.sized }

/-- The dictionary with one more entry. -/
def addEntry (d : DictBody) (slot : ℕ) (entry : HeapEntry) : DictBody :=
  { d.setEntry slot entry with count := d.count + 1 }

/-- The dictionary with an empty table of another capacity. -/
def emptied (d : DictBody) (newCapacity : ℤ) : DictBody :=
  .new newCapacity d.keyType d.valueType

/-- The checks of a key and of a value against the types of the dictionary. -/
def mismatch (expected : VarType) (v : HeapValue) : Bool :=
  expected != .typeNil && expected != v.type

/-- An empty dictionary without declared types takes those of its first pair. -/
def adoptTypes (d : DictBody) (key value : HeapValue) : DictBody :=
  { d with
    keyType := if d.keyType = .typeNil ∧ d.count = 0 then key.type else d.keyType
    valueType :=
      if d.valueType = .typeNil ∧ d.count = 0 then value.type else d.valueType }

/-- The messages of a failed type check. -/
def keyTypeError (d : DictBody) (key : HeapValue) : BreadError where
  type := .typeMismatch
  message :=
    "Type mismatch: cannot use key of type " ++ toString key.type.code ++
      " in dictionary with key type " ++ toString d.keyType.code

@[inherit_doc keyTypeError]
def valueTypeError (d : DictBody) (value : HeapValue) : BreadError where
  type := .typeMismatch
  message :=
    "Type mismatch: cannot assign value of type " ++ toString value.type.code ++
      " to dictionary with value type " ++ toString d.valueType.code

/-- What `bread_dict_clear` leaves of an entry. -/
def clearEntry (entry : HeapEntry) : HeapEntry :=
  if entry.isLive then .zero
  else { entry with isOccupied := false, isDeleted := false }

/-- `bread_dict_clear`, without the releases. -/
def cleared (d : DictBody) : DictBody :=
  { d with
    count := 0
    entries := d.entries.map clearEntry
    sized := List.length_map _ |>.trans d.sized }

end DictBody

namespace ObjectHeap

/-- The dictionary at an address. -/
def getDict (h : ObjectHeap) (r : Ref) : Exec DictBody :=
  match h.body r with
  | some (.dict d) => .ok d
  | _ => .error (.undefined .useAfterFree)

/-- `bread_dict_hash_key`. -/
def hashKey (h : ObjectHeap) : HeapValue → Exec UInt32
  | .int n => .ok (BreadDict.hashKey (.int n))
  | .double d => .ok (BreadDict.hashKey (.double d))
  | .bool b => .ok (BreadDict.hashKey (.bool b))
  | .string (some r) => do return BreadDict.hashKey (.string (← h.stringAt r))
  | _ => .ok 0

/-- The comparison of an entry's key with the key looked for. -/
def keysEqual (h : ObjectHeap) (entryKey key : HeapValue) : Exec Bool :=
  match entryKey, key with
  | .int a, .int b => .ok (a == b)
  | .double a, .double b => .ok (doubleEq a b)
  | .bool a, .bool b => .ok (a == b)
  | .string (some a), .string (some b) => do
      return cString (← h.stringAt a) == cString (← h.stringAt b)
  | .nil, .nil => .ok true
  | _, _ => .ok false

/-- The loop of `bread_dict_find_slot`, with a bound on its iterations that it never
reaches. -/
def findSlotLoop (h : ObjectHeap) (d : DictBody) (key : HeapValue) (start : ℕ) :
    ℕ → ℕ → Exec (Option ℕ)
  | 0, _ => .ok none
  | n + 1, slot => do
      let entry ← d.entryAt slot
      if !entry.isOccupied then return some slot
      else if entry.isDeleted then return some slot
      else if ← h.keysEqual entry.key key then return some slot
      else
        let slot := (slot + 1) % d.capacity.toNat
        if slot = start then return none
        else h.findSlotLoop d key start n slot

/-- `bread_dict_find_slot`, with `none` for the result `-1`. -/
def findSlot (h : ObjectHeap) (d : DictBody) (key : HeapValue) : Exec (Option ℕ) :=
  if d.capacity = 0 then .ok none
  else do
    let hash ← h.hashKey key
    let start := hash.toNat % toUnsigned d.capacity
    h.findSlotLoop d key start (d.entries.length + 1) start

/-- The loop of `bread_dict_resize` over the old entries. -/
def resizeLoop (h : ObjectHeap) : List HeapEntry → DictBody → Exec DictBody
  | [], d => .ok d
  | entry :: rest, d =>
      if entry.isLive then do
        match ← h.findSlot d entry.key with
        | some slot => h.resizeLoop rest (d.addEntry slot entry)
        | none => h.resizeLoop rest d
      else h.resizeLoop rest d

/-- The growth step of `bread_dict_set_safe`, with `bread_dict_resize`. -/
def growIfNeeded (h : ObjectHeap) (d : DictBody) : Exec DictBody :=
  if d.header.needsGrowth then do
    let newCapacity ← d.header.grownCapacity
    if newCapacity ≤ 0 then return d
    else h.resizeLoop d.entries (d.emptied newCapacity)
  else .ok d

/-- `bread_dict_new_with_capacity`, and with a capacity of zero `bread_dict_new_typed` and
`bread_dict_new`. -/
def dictNew (h : ObjectHeap) (capacity : ℤ) (keyType valueType : VarType) : Ref × ObjectHeap :=
  h.create (.dict (.new capacity keyType valueType))

/-- Replace the value of a live entry. -/
def setEntryValue (h : ObjectHeap) (r : Ref) (d : DictBody) (slot : ℕ) (entry : HeapEntry)
    (v : HeapValue) : Exec ObjectHeap :=
  h.replaceValue r (.dict (d.setEntry slot { entry with value := .nil })) entry.value v
    (.dict (d.setEntry slot { entry with value := v }))

/-- Fill a slot with clones of a key and a value. -/
def fillSlot (h : ObjectHeap) (r : Ref) (d : DictBody) (slot : ℕ) (key value : HeapValue) :
    Exec ObjectHeap := do
  let h ← h.valueClone key
  let h ← h.valueClone value
  h.write r (.dict (d.addEntry slot ⟨key, value, true, false⟩))

/-- `bread_dict_set_safe`.  It returns 1, or records an error and returns 0. -/
def dictSetSafe (h : ObjectHeap) (d : Option Ref) (key value : HeapValue) :
    Exec (ObjectHeap × Except BreadError Unit) :=
  match d with
  | none => .error (nullError "Cannot set element of null dictionary")
  | some r => do
      let d ← h.getDict r
      if DictBody.mismatch d.keyType key then return (h, .error (d.keyTypeError key))
      else if DictBody.mismatch d.valueType value then
        return (h, .error (d.valueTypeError value))
      else
        let d ← h.growIfNeeded (d.adoptTypes key value)
        match ← h.findSlot d key with
        | none => .error (.abort BreadDict.fullError)
        | some slot =>
            let entry ← d.entryAt slot
            if entry.isLive then return (← h.setEntryValue r d slot entry value, .ok ())
            else return (← h.fillSlot r d slot key value, .ok ())

/-- The check of the entries of a literal against the types of the first. -/
def literalMismatch (keyType valueType : VarType) :
    List (HeapValue × HeapValue) → Option BreadError
  | [] => none
  | (key, value) :: rest =>
      if key.type ≠ keyType then some BreadDict.literalKeyError
      else if value.type ≠ valueType then some BreadDict.literalValueError
      else literalMismatch keyType valueType rest

/-- The insertion loop of `bread_dict_from_literal`.  It does not look whether the slot
is occupied. -/
def storePairs (h : ObjectHeap) (r : Ref) (d : DictBody) :
    List (HeapValue × HeapValue) → Exec ObjectHeap
  | [] => .ok h
  | (key, value) :: rest => do
      match ← h.findSlot d key with
      | some slot =>
          let h ← h.fillSlot r d slot key value
          h.storePairs r (d.addEntry slot ⟨key, value, true, false⟩) rest
      | none => h.storePairs r d rest

/-- The types of a literal: those of its first pair. -/
def literalTypes (pairs : List (HeapValue × HeapValue)) : VarType × VarType :=
  match pairs with
  | [] => (.typeNil, .typeNil)
  | (key, value) :: _ => (key.type, value.type)

/-- `bread_dict_from_literal`.  It returns `NULL` after recording an error. -/
def dictFromLiteral (h : ObjectHeap) (pairs : List (HeapValue × HeapValue)) :
    Exec (Option Ref × ObjectHeap × Except BreadError Unit) :=
  let (keyType, valueType) := literalTypes pairs
  match literalMismatch keyType valueType pairs with
  | some e => .ok (none, h, .error e)
  | none => do
      let capacity ← BreadDict.literalCapacity pairs.length
      let d := DictBody.new capacity keyType valueType
      let (r, h) := h.create (.dict d)
      let h ← h.storePairs r d pairs
      return (some r, h, .ok ())

/-- A `for` loop over the slots that stops at the first entry passing a test. -/
def scan (test : HeapEntry → Exec Bool) : ℕ → List HeapEntry → Exec (Option ℕ)
  | _, [] => .ok none
  | i, entry :: rest => do
      if ← test entry then return some i else scan test (i + 1) rest

/-- The test for a live entry whose key is the string `key`. -/
def holdsString (h : ObjectHeap) (key : BreadString) (entry : HeapEntry) : Exec Bool :=
  match entry.isLive, entry.key with
  | true, .string (some r) => do return cString (← h.stringAt r) == cString key
  | _, _ => .ok false

/-- The loop of `bread_dict_set` that moves the old entries to a new table. -/
def compactLoop : List HeapEntry → DictBody → Exec DictBody
  | [], d => .ok d
  | entry :: rest, d =>
      if entry.isLive then do
        match ← scan (fun e => .ok !e.isOccupied) 0 d.entries with
        | some slot => compactLoop rest (d.addEntry slot entry)
        | none => compactLoop rest d
      else compactLoop rest d

/-- The part of `bread_dict_set` that inserts a new key at the first free slot. -/
def insertFirstFree (h : ObjectHeap) (r key : Ref) (d : DictBody) (value : HeapValue) :
    Exec (ObjectHeap × Bool) := do
  match ← scan (fun e => .ok (!e.isOccupied || e.isDeleted)) 0 d.entries with
  | some slot =>
      let h ← h.valueClone value
      let h ← h.write r (.dict (d.addEntry slot ⟨.string (some key), value, true, false⟩))
      return (h, true)
  | none =>
      let h ← h.write r (.dict d)
      return (← h.releaseRefs [key], false)

/-- `bread_dict_set`, on a dictionary and a key that are not null.  For a negative
capacity the size passed to `calloc` is out of range. -/
def dictSet (h : ObjectHeap) (r : Ref) (key : BreadString) (value : HeapValue) :
    Exec (ObjectHeap × Bool) := do
  let (k, h) := h.stringNew (cString key)
  let d ← h.getDict r
  if DictBody.mismatch d.keyType (.string (some k)) then
    return (← h.releaseRefs [k], false)
  else if DictBody.mismatch d.valueType value then
    return (← h.releaseRefs [k], false)
  else
    let d := d.adoptTypes (.string (some k)) value
    match ← scan (h.holdsString key) 0 d.entries with
    | some slot =>
        let entry ← d.entryAt slot
        let h ← h.setEntryValue r d slot entry value
        return (← h.releaseRefs [k], true)
    | none =>
        if d.header.loadReached then
          let newCapacity ← d.header.grownCapacity
          if newCapacity < 0 then
            let h ← h.write r (.dict d)
            return (← h.releaseRefs [k], false)
          else
            let d ← compactLoop d.entries (d.emptied newCapacity)
            h.insertFirstFree r k d value
        else h.insertFirstFree r k d value

/-- `bread_dict_remove`.  It returns a clone of the removed value, or the nil value. -/
def dictRemove (h : ObjectHeap) (d : Option Ref) (key : HeapValue) :
    Exec (Except BreadError HeapValue × ObjectHeap) :=
  match d with
  | none => .error (nullError "Cannot remove from null dictionary")
  | some r => do
      let d ← h.getDict r
      if DictBody.mismatch d.keyType key then return (.error (d.keyTypeError key), h)
      else
        match ← h.findSlot d key with
        | none => return (.ok .nil, h)
        | some slot =>
            let entry ← d.entryAt slot
            if entry.isLive then
              let h ← h.valueClone entry.value
              let h ← h.write r (.dict (d.setEntry slot ⟨.nil, .nil, true, false⟩))
              let h ← h.valueRelease entry.key
              let h ← h.valueRelease entry.value
              let h ← h.write r
                (.dict { d.setEntry slot ⟨.nil, .nil, true, true⟩ with count := d.count - 1 })
              return (.ok entry.value, h)
            else return (.ok .nil, h)

/-- `bread_dict_clear`. -/
def dictClear (h : ObjectHeap) (d : Option Ref) : Exec ObjectHeap :=
  match d with
  | none => .ok h
  | some r => do
      let d ← h.getDict r
      let h ← h.write r (.dict d.cleared)
      let h ← h.releaseRefs (d.entries.flatMap HeapEntry.refs)
      h.write r (.dict d.cleared)

/-- The loop of `bread_dict_keys` and `bread_dict_values`, which gives up when an append
fails. -/
def collectLoop (h : ObjectHeap) (a : Ref) : List HeapValue → Exec (Option Ref × ObjectHeap)
  | [] => .ok (some a, h)
  | v :: vs => do
      match ← h.arrayAppend (some a) v with
      | (h, true) => h.collectLoop a vs
      | (h, false) => return (none, ← h.releaseRefs [a])

/-- `bread_dict_keys`, with `none` for `NULL`. -/
def dictKeys (h : ObjectHeap) (d : Option Ref) : Exec (Option Ref × ObjectHeap) :=
  match d with
  | none => .ok (none, h)
  | some r => do
      let d ← h.getDict r
      let (a, h) := h.arrayNew 0 d.keyType
      h.collectLoop a ((d.entries.filter HeapEntry.isLive).map HeapEntry.key)

/-- `bread_dict_values`, with `none` for `NULL`. -/
def dictValues (h : ObjectHeap) (d : Option Ref) : Exec (Option Ref × ObjectHeap) :=
  match d with
  | none => .ok (none, h)
  | some r => do
      let d ← h.getDict r
      let (a, h) := h.arrayNew 0 d.valueType
      h.collectLoop a ((d.entries.filter HeapEntry.isLive).map HeapEntry.value)

/-- `bread_value_dict_keys_as_value`.  The value it stores has a reference of its own. -/
def valueDictKeysAsValue (h : ObjectHeap) (v : HeapValue) : Exec (Option HeapValue × ObjectHeap) :=
  match v with
  | .dict d => do
      match ← h.dictKeys d with
      | (none, h) => return (none, h)
      | (some keys, h) =>
          let h ← h.objectRetain keys
          return (some (.array (some keys)), h)
  | _ => .ok (none, h)

/-- `bread_dict_get_with_default`.  It returns a clone of what is found, or of the
default. -/
def dictGetWithDefault (h : ObjectHeap) (d : Option Ref) (key default : HeapValue) :
    Exec (HeapValue × ObjectHeap) :=
  match d with
  | none => .error (nullError "Cannot access element of null dictionary")
  | some r => do
      let d ← h.getDict r
      if DictBody.mismatch d.keyType key then return (default, ← h.valueClone default)
      else
        match ← h.findSlot d key with
        | none => return (default, ← h.valueClone default)
        | some slot =>
            let entry ← d.entryAt slot
            let v := if entry.isLive then entry.value else default
            return (v, ← h.valueClone v)

/-! ### Optionals and structs -/

/-- `bread_optional_new_none`. -/
def optionalNewNone (h : ObjectHeap) : Ref × ObjectHeap :=
  h.create (.optional none)

/-- `bread_optional_new_some`. -/
def optionalNewSome (h : ObjectHeap) (v : HeapValue) : Exec (Ref × ObjectHeap) := do
  let (r, h) := h.create (.optional (some .nil))
  let h ← h.valueClone v
  return (r, ← h.write r (.optional (some v)))

/-- `bread_struct_new`. -/
def structNew (h : ObjectHeap) (typeName : Ident) (fieldNames : List Ident) : Ref × ObjectHeap :=
  h.create (.struct
    { typeName := typeName
      fieldNames := fieldNames
      fieldValues := fieldNames.map fun _ => .nil })

/-- `bread_struct_find_field_index` and `bread_class_find_field_index`. -/
def findFieldIndex (fieldNames : List Ident) (name : Ident) : Option ℕ :=
  fieldNames.findIdx? fun field => field == name

/-- `bread_struct_set_field`. -/
def structSetField (h : ObjectHeap) (s : Option Ref) (name : Ident) (v : HeapValue) :
    Exec ObjectHeap :=
  match s with
  | none => .ok h
  | some r =>
      match h.body r with
      | some (.struct s) =>
          match findFieldIndex s.fieldNames name with
          | none => .ok h
          | some index =>
              match s.fieldValues[index]? with
              | none => .error (.undefined .outOfBounds)
              | some old =>
                  h.replaceValue r
                    (.struct { s with fieldValues := s.fieldValues.set index .nil }) old v
                    (.struct { s with fieldValues := s.fieldValues.set index v })
      | _ => .error (.undefined .useAfterFree)

end ObjectHeap

end BreadLang
