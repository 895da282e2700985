import BreadLang.Core.Array
import BreadLang.Library.OpenAddressing

/-!
# The dictionary as the runtime implements it

A transcription of the dictionary: a table of entries with two flags each, a
count, a capacity and the two type tags.  The operations take a non-null
dictionary, and every allocation succeeds; both are what their callers rely on.

A dictionary whose `entries` pointer is `NULL` has no entries, whatever its
capacity says, so an access through the pointer is out of bounds.  The two
flags are `int`s that only ever hold zero and one.
-/

namespace BreadLang

/-- `BreadDictEntry`. -/
structure BreadDictEntry where
  key : BreadValue
  value : BreadValue
  isOccupied : Bool
  isDeleted : Bool
  deriving DecidableEq

/-- An entry as `calloc` leaves it.  The key and the value of an entry that is
not occupied are never read. -/
def BreadDictEntry.zero : BreadDictEntry where
  key := .nil
  value := .nil
  isOccupied := false
  isDeleted := false

/-- The test `is_occupied && !is_deleted`. -/
def BreadDictEntry.isLive (e : BreadDictEntry) : Bool :=
  e.isOccupied && !e.isDeleted

/-- `BreadDict`, without its object header. -/
structure BreadDict where
  count : ℤ
  capacity : ℤ
  keyType : VarType
  valueType : VarType
  entries : List BreadDictEntry
  deriving DecidableEq

namespace BreadDict

/-- `bread_dict_new_with_capacity`.  A capacity that is not positive is stored
all the same. -/
def newWithCapacity (capacity : ℤ) (keyType valueType : VarType) : BreadDict where
  count := 0
  capacity := capacity
  keyType := keyType
  valueType := valueType
  entries := List.replicate capacity.toNat .zero

/-- `bread_dict_new`. -/
def new : BreadDict where
  count := 0
  capacity := 0
  keyType := .typeNil
  valueType := .typeNil
  entries := []

/-- `bread_dict_new_typed`. -/
def newTyped (keyType valueType : VarType) : BreadDict :=
  newWithCapacity 0 keyType valueType

/-! ### Hashing and comparing keys -/

/-- `(uint32_t)c` for a `char`, which is signed. -/
def charToUInt32 (c : Char) : UInt32 :=
  (Int8.ofNat c.toNat).toInt32.toUInt32

/-- `bread_dict_hash_key`. -/
def hashKey : BreadValue → UInt32
  | .int n =>
      let x := UInt32.ofNat (n.val % 2 ^ 32).toNat
      let x := ((x >>> 16) ^^^ x) * 0x45d9f3b
      let x := ((x >>> 16) ^^^ x) * 0x45d9f3b
      (x >>> 16) ^^^ x
  | .double d => d.bits.toUInt32 ^^^ (d.bits >>> 32).toUInt32
  | .string s =>
      -- FNV-1a over all bytes of the string
      s.foldl (fun hash c => (hash ^^^ charToUInt32 c) * 16777619) 2166136261
  | .bool b => if b then 1 else 0
  | _ => 0

/-- The comparison of an entry's key with the key looked for. -/
def keysEqual (entryKey key : BreadValue) : Bool :=
  match entryKey, key with
  | .int a, .int b => a == b
  | .double a, .double b => doubleEq a b
  | .bool a, .bool b => a == b
  | .string a, .string b => cString a == cString b
  | .nil, .nil => true
  | _, _ => false

/-! ### Probing -/

/-- `dict->entries[slot]`. -/
def entryAt (d : BreadDict) (slot : ℕ) : Exec BreadDictEntry :=
  match d.entries[slot]? with
  | some entry => .ok entry
  | none => .error (.undefined .outOfBounds)

/-- `hash % dict->capacity`, where the capacity is converted to `unsigned`. -/
def startSlot (d : BreadDict) (key : BreadValue) : ℕ :=
  (hashKey key).toNat % toUnsigned d.capacity

/-- The loop of `bread_dict_find_slot`, with a bound on its iterations that it
never reaches: the walk is back at `start` after `capacity` of them. -/
def findSlotLoop (d : BreadDict) (key : BreadValue) (start : ℕ) :
    ℕ → ℕ → Exec (Option ℕ)
  | 0, _ => .ok none
  | n + 1, slot => do
      let entry ← d.entryAt slot
      if !entry.isOccupied then
        return some slot
      else if entry.isDeleted then
        return some slot
      else if keysEqual entry.key key then
        return some slot
      else
        let slot := (slot + 1) % d.capacity.toNat
        if slot = start then return none
        else findSlotLoop d key start n slot

/-- `bread_dict_find_slot`, with `none` for the result `-1`. -/
def findSlot (d : BreadDict) (key : BreadValue) : Exec (Option ℕ) :=
  if d.capacity = 0 then .ok none
  else findSlotLoop d key (d.startSlot key) (d.entries.length + 1) (d.startSlot key)

/-! ### Resizing -/

/-- The loop of `bread_dict_resize` over the old entries. -/
def resizeLoop : List BreadDictEntry → BreadDict → Exec BreadDict
  | [], d => .ok d
  | entry :: rest, d =>
      if entry.isLive then do
        match ← d.findSlot entry.key with
        | some slot =>
            resizeLoop rest
              { d with entries := d.entries.set slot entry, count := d.count + 1 }
        | none => resizeLoop rest d
      else resizeLoop rest d

/-- `bread_dict_resize`. -/
def resize (d : BreadDict) (newCapacity : ℤ) : Exec BreadDict :=
  if newCapacity ≤ 0 then .ok d
  else
    resizeLoop d.entries
      { d with
        entries := List.replicate newCapacity.toNat .zero
        capacity := newCapacity
        count := 0 }

/-! ### The operations that probe -/

/-- The two messages of a failed type check. -/
def keyTypeError (d : BreadDict) (key : BreadValue) : BreadError where
  type := .typeMismatch
  message :=
    "Type mismatch: cannot use key of type " ++ toString key.type.code ++
      " in dictionary with key type " ++ toString d.keyType.code

@[inherit_doc keyTypeError]
def valueTypeError (d : BreadDict) (value : BreadValue) : BreadError where
  type := .typeMismatch
  message :=
    "Type mismatch: cannot assign value of type " ++ toString value.type.code ++
      " to dictionary with value type " ++ toString d.valueType.code

/-- The check of a key against the dictionary's key type. -/
def keyMismatch (d : BreadDict) (key : BreadValue) : Bool :=
  d.keyType != .typeNil && d.keyType != key.type

/-- The check of a value against the dictionary's value type. -/
def valueMismatch (d : BreadDict) (value : BreadValue) : Bool :=
  d.valueType != .typeNil && d.valueType != value.type

/-- An empty dictionary without declared types takes those of its first pair. -/
def adoptTypes (d : BreadDict) (key value : BreadValue) : BreadDict :=
  { d with
    keyType := if d.keyType = .typeNil ∧ d.count = 0 then key.type else d.keyType
    valueType :=
      if d.valueType = .typeNil ∧ d.count = 0 then value.type else d.valueType }

/-- `(double)(dict->count + 1) / dict->capacity > 0.75`.  Both operands are
exact and `0.75` is a power of two times three, so the rounded quotient
compares as the exact one does; dividing by a negative capacity turns the
inequality around. -/
def loadExceeded (d : BreadDict) : Bool :=
  if 0 < d.capacity then 3 * d.capacity < 4 * (d.count + 1)
  else 4 * (d.count + 1) < 3 * d.capacity

/-- The test of `bread_dict_set_safe` that decides whether to grow. -/
def needsGrowth (d : BreadDict) : Bool :=
  d.capacity == 0 || d.loadExceeded

/-- `dict->capacity == 0 ? 8 : dict->capacity * 2`. -/
def grownCapacity (d : BreadDict) : Exec ℤ :=
  if d.capacity = 0 then .ok 8 else checkedInt (d.capacity * 2)

/-- The growth step of `bread_dict_set_safe`. -/
def growIfNeeded (d : BreadDict) : Exec BreadDict :=
  if d.needsGrowth then do
    let newCapacity ← d.grownCapacity
    d.resize newCapacity
  else .ok d

/-- The last part of `bread_dict_set_safe`: overwrite the value of a live slot,
or fill a free one. -/
def storeAt (d : BreadDict) (slot : ℕ) (key value : BreadValue) : Exec BreadDict := do
  let entry ← d.entryAt slot
  if entry.isLive then
    return { d with entries := d.entries.set slot { entry with value := value } }
  else
    return { d with
      entries := d.entries.set slot ⟨key, value, true, false⟩
      count := d.count + 1 }

/-- The error of a table without a free slot, on which the process aborts. -/
def fullError : BreadError where
  type := .runtimeError
  message := "Dictionary is full and cannot be resized"

/-- `bread_dict_set_safe`.  It returns 1, or records an error and returns 0. -/
def setSafe (d : BreadDict) (key value : BreadValue) :
    Exec (BreadDict × Except BreadError Unit) :=
  if d.keyMismatch key then .ok (d, .error (d.keyTypeError key))
  else if d.valueMismatch value then .ok (d, .error (d.valueTypeError value))
  else do
    let d ← (d.adoptTypes key value).growIfNeeded
    match ← d.findSlot key with
    | none => .error (.abort fullError)
    | some slot => return (← d.storeAt slot key value, .ok ())

/-- `bread_dict_get_safe`, with the value itself for the pointer to it. -/
def getSafe (d : BreadDict) (key : BreadValue) :
    Exec (Except BreadError (Option BreadValue)) :=
  if d.keyMismatch key then .ok (.error (d.keyTypeError key))
  else if d.capacity = 0 then .ok (.ok none)
  else do
    match ← d.findSlot key with
    | none => return .ok none
    | some slot =>
        let entry ← d.entryAt slot
        return .ok (if entry.isLive then some entry.value else none)

/-- The pointer `bread_dict_get_safe` returns: `NULL` also after an error. -/
def returnedPointer : Except BreadError (Option BreadValue) → Option BreadValue
  | .ok p => p
  | .error _ => none

/-- `bread_dict_contains_key`. -/
def containsKey (d : BreadDict) (key : BreadValue) : Exec Bool :=
  if d.keyMismatch key then .ok false
  else if d.capacity = 0 then .ok false
  else do
    match ← d.findSlot key with
    | none => return false
    | some slot => return (← d.entryAt slot).isLive

/-- `bread_dict_remove`.  It returns the removed value, or the nil value. -/
def remove (d : BreadDict) (key : BreadValue) :
    Exec (BreadDict × Except BreadError BreadValue) :=
  if d.keyMismatch key then .ok (d, .error (d.keyTypeError key))
  else if d.capacity = 0 then .ok (d, .ok .nil)
  else do
    match ← d.findSlot key with
    | none => return (d, .ok .nil)
    | some slot =>
        let entry ← d.entryAt slot
        if entry.isLive then
          -- releasing a value turns it into nil; the slot becomes a tombstone
          return ({ d with
            entries := d.entries.set slot ⟨.nil, .nil, true, true⟩
            count := d.count - 1 }, .ok entry.value)
        else return (d, .ok .nil)

/-- The value `bread_dict_remove` returns: the nil value also after an error. -/
def returnedValue : Except BreadError BreadValue → BreadValue
  | .ok v => v
  | .error _ => .nil

/-- What `bread_dict_clear` does to one entry. -/
def clearEntry (entry : BreadDictEntry) : BreadDictEntry :=
  if entry.isLive then ⟨.nil, .nil, false, false⟩
  else { entry with isOccupied := false, isDeleted := false }

/-- `bread_dict_clear`.  The type tags stay. -/
def clear (d : BreadDict) : BreadDict :=
  { d with entries := d.entries.map clearEntry, count := 0 }

/-! ### Literals -/

/-- The errors of a literal whose keys, or whose values, differ in type. -/
def literalKeyError : BreadError where
  type := .typeMismatch
  message := "Dictionary literal keys must have the same type"

@[inherit_doc literalKeyError]
def literalValueError : BreadError where
  type := .typeMismatch
  message := "Dictionary literal values must have the same type"

/-- The check of the entries of a literal against the types of the first. -/
def literalMismatch (keyType valueType : VarType) :
    List (BreadValue × BreadValue) → Option BreadError
  | [] => none
  | (key, value) :: rest =>
      if key.type ≠ keyType then some literalKeyError
      else if value.type ≠ valueType then some literalValueError
      else literalMismatch keyType valueType rest

/-- `count > 0 ? (int)(count / 0.75) + 1 : 8`, but at least 8.  The quotient is
an integer or at least a third away from one, so rounding it does not change
its integral part. -/
def literalCapacity (count : ℕ) : Exec ℤ :=
  if 0 < count then do
    let capacity ← checkedInt (4 * count / 3 + 1)
    return if capacity < 8 then 8 else capacity
  else .ok 8

/-- The insertion loop of `bread_dict_from_literal`: unlike
`bread_dict_set_safe` it does not look whether the slot is live. -/
def literalLoop : List (BreadValue × BreadValue) → BreadDict → Exec BreadDict
  | [], d => .ok d
  | (key, value) :: rest, d => do
      match ← d.findSlot key with
      | some slot =>
          literalLoop rest { d with
            entries := d.entries.set slot ⟨key, value, true, false⟩
            count := d.count + 1 }
      | none => literalLoop rest d

/-- `bread_dict_from_literal`.  It returns `NULL` after recording an error. -/
def fromLiteral : List (BreadValue × BreadValue) → Exec (Except BreadError BreadDict)
  | [] => do
      let capacity ← literalCapacity 0
      return .ok (newWithCapacity capacity .typeNil .typeNil)
  | (key, value) :: rest =>
      match literalMismatch key.type value.type rest with
      | some e => .ok (.error e)
      | none => do
          let capacity ← literalCapacity (rest.length + 1)
          let d ← literalLoop ((key, value) :: rest)
            (newWithCapacity capacity key.type value.type)
          return .ok d

/-! ### Listing the contents -/

/-- The loop of `bread_dict_keys` and `bread_dict_values`, which append one
field of every live entry to an array and give up when an append fails. -/
def collectLoop (d : BreadDict) (field : BreadDictEntry → BreadValue) :
    ℕ → ℕ → BreadArray → Exec (Option BreadArray)
  | 0, _, a => .ok (some a)
  | n + 1, i, a => do
      let entry ← d.entryAt i
      if entry.isLive then do
        let (a', appended) ← a.append (field entry)
        if appended then collectLoop d field n (i + 1) a' else return none
      else collectLoop d field n (i + 1) a

/-- `bread_dict_keys`, with `none` for `NULL`. -/
def keys (d : BreadDict) : Exec (Option BreadArray) :=
  d.collectLoop BreadDictEntry.key d.capacity.toNat 0 (BreadArray.newTyped d.keyType)

/-- `bread_dict_values`, with `none` for `NULL`. -/
def values (d : BreadDict) : Exec (Option BreadArray) :=
  d.collectLoop BreadDictEntry.value d.capacity.toNat 0
    (BreadArray.newTyped d.valueType)

/-! ### The operations that scan

`bread_dict_set` and `bread_dict_get` work on the same table, but look at its
slots from the first one on, whatever the hash of the key is. -/

/-- A `for` loop over the slots that stops at the first entry passing a test. -/
def scanLoop (d : BreadDict) (test : BreadDictEntry → Bool) :
    ℕ → ℕ → Exec (Option ℕ)
  | 0, _ => .ok none
  | n + 1, i => do
      let entry ← d.entryAt i
      if test entry then return some i else scanLoop d test n (i + 1)

@[inherit_doc scanLoop]
def scan (d : BreadDict) (test : BreadDictEntry → Bool) : Exec (Option ℕ) :=
  scanLoop d test d.capacity.toNat 0

/-- The test for a live entry whose key is the string `key`. -/
def holdsString (key : BreadString) (entry : BreadDictEntry) : Bool :=
  entry.isLive &&
    match entry.key with
    | .string s => cString s == cString key
    | _ => false

/-- The test for a slot that `bread_dict_set` may fill. -/
def isFree (entry : BreadDictEntry) : Bool :=
  !entry.isOccupied || entry.isDeleted

/-- `d->count >= d->capacity * 0.75`. -/
def loadReached (d : BreadDict) : Bool :=
  3 * d.capacity ≤ 4 * d.count

/-- The loop of `bread_dict_set` that moves the old entries to a new table. -/
def compactLoop : List BreadDictEntry → BreadDict → Exec BreadDict
  | [], d => .ok d
  | entry :: rest, d =>
      if entry.isLive then do
        match ← d.scan fun e => !e.isOccupied with
        | some slot =>
            compactLoop rest
              { d with entries := d.entries.set slot entry, count := d.count + 1 }
        | none => compactLoop rest d
      else compactLoop rest d

/-- The part of `bread_dict_set` that inserts a new key at the first free
slot. -/
def insertFirstFree (d : BreadDict) (key : BreadString) (value : BreadValue) :
    Exec (BreadDict × Bool) := do
  match ← d.scan isFree with
  | some slot =>
      return ({ d with
        entries := d.entries.set slot ⟨.string key, value, true, false⟩
        count := d.count + 1 }, true)
  | none => return (d, false)

/-- `bread_dict_set`.  A type mismatch makes it return 0 without recording an
error.  For a negative capacity the size passed to `calloc` is out of range. -/
def set (d : BreadDict) (key : BreadString) (value : BreadValue) :
    Exec (BreadDict × Bool) :=
  if d.keyMismatch (.string key) then .ok (d, false)
  else if d.valueMismatch value then .ok (d, false)
  else do
    let d := d.adoptTypes (.string key) value
    match ← d.scan (holdsString key) with
    | some slot =>
        let entry ← d.entryAt slot
        return ({ d with entries := d.entries.set slot { entry with value := value } },
          true)
    | none =>
        if d.loadReached then do
          let newCapacity ← d.grownCapacity
          if newCapacity < 0 then return (d, false)
          else do
            let d ← compactLoop d.entries
              { d with
                entries := List.replicate newCapacity.toNat .zero
                capacity := newCapacity
                count := 0 }
            d.insertFirstFree key value
        else d.insertFirstFree key value

/-- `bread_dict_get`. -/
def get (d : BreadDict) (key : BreadString) : Exec (Option BreadValue) := do
  match ← d.scan (holdsString key) with
  | some slot => return some (← d.entryAt slot).value
  | none => return none

end BreadDict
end BreadLang
