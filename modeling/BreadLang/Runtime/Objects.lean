import BreadLang.Core.Dict
import BreadLang.Library.RefCount
import BreadLang.Runtime.Vars

/-!
# Counted objects

Strings, arrays, dictionaries, optionals, structs and instances of classes as objects of
a heap with reference counts, and the functions that make them and change them.  A value
is a tag with a pointer, which may be `NULL`.  An object is known by the number of its
creation, not by its address, and every allocation succeeds.

A release empties the slot that held the reference before it lowers the count, not after.
Nothing reads the slot in between: the object it belongs to is held by the caller, or it
is being taken apart itself.  A write to an object that such a release has taken apart is
undefined behaviour.
-/

namespace BreadLang

/-! ### Values and objects -/

/-- `BreadValue`, with a pointer for every object. -/
inductive HeapValue where
  | nil
  | int (n : BreadInt)
  | bool (b : Bool)
  | float (f : FloatBits)
  | double (d : DoubleBits)
  | string (r : Option Ref)
  | array (r : Option Ref)
  | dict (r : Option Ref)
  | optional (r : Option Ref)
  | struct (r : Option Ref)
  | class (r : Option Ref)
  deriving DecidableEq

namespace HeapValue

/-- The tag of a value. -/
def type : HeapValue → VarType
  | .nil => .typeNil
  | .int _ => .typeInt
  | .bool _ => .typeBool
  | .float _ => .typeFloat
  | .double _ => .typeDouble
  | .string _ => .typeString
  | .array _ => .typeArray
  | .dict _ => .typeDict
  | .optional _ => .typeOptional
  | .struct _ => .typeStruct
  | .class _ => .typeClass

/-- The object a value refers to. -/
def ref? : HeapValue → Option Ref
  | .string r | .array r | .dict r | .optional r | .struct r | .class r => r
  | _ => none

/-- The references that a value holds: one or none. -/
def refs (v : HeapValue) : List Ref :=
  v.ref?.toList

end HeapValue

/-- The references that a list of values holds. -/
def valueRefs (vs : List HeapValue) : List Ref :=
  vs.flatMap HeapValue.refs

/-- `BreadDictEntry`. -/
structure HeapEntry where
  key : HeapValue
  value : HeapValue
  isOccupied : Bool
  isDeleted : Bool

namespace HeapEntry

/-- An entry as `calloc` leaves it.  The key and the value of an entry that is not
occupied are never read. -/
def zero : HeapEntry where
  key := .nil
  value := .nil
  isOccupied := false
  isDeleted := false

/-- The test `is_occupied && !is_deleted`. -/
def isLive (e : HeapEntry) : Bool :=
  e.isOccupied && !e.isDeleted

/-- The references that an entry holds. -/
def refs (e : HeapEntry) : List Ref :=
  if e.isLive then e.key.refs ++ e.value.refs else []

end HeapEntry

/-- `BreadArray`, without its object header.  `items` are the first `count` elements of
the buffer. -/
structure ArrayBody where
  capacity : ℤ
  elementType : VarType
  items : List HeapValue

/-- `BreadDict`, without its object header.  A capacity that is not positive belongs to
a dictionary without a table. -/
structure DictBody where
  count : ℤ
  capacity : ℤ
  keyType : VarType
  valueType : VarType
  entries : List HeapEntry
  sized : entries.length = capacity.toNat

/-- `BreadStruct`, without its object header. -/
structure StructBody where
  typeName : Ident
  fieldNames : List Ident
  fieldValues : List HeapValue

/-- `BreadClass` of an instance, without its object header and its compiled code.
`parentClass` is the number of a definition. -/
structure ClassBody where
  className : Ident
  parentName : Option Ident
  parentClass : Option ℕ
  fieldNames : List Ident
  fieldValues : List HeapValue
  methodNames : List Ident

/-- What follows the header of an object. -/
inductive ObjectBody where
  | string (data : BreadString)
  | array (a : ArrayBody)
  | dict (d : DictBody)
  | optional (value : Option HeapValue)
  | struct (s : StructBody)
  | instance (c : ClassBody)

/-- The references that are released when an object is destroyed, in the order of
`bread_array_release` and the functions like it. -/
def ObjectBody.children : ObjectBody → List Ref
  | .string _ => []
  | .array a => valueRefs a.items
  | .dict d => d.entries.flatMap HeapEntry.refs
  | .optional value => valueRefs value.toList
  | .struct s => valueRefs s.fieldValues
  | .instance c => valueRefs c.fieldValues

/-- The objects. -/
abbrev ObjectHeap := RefCount.Heap ObjectBody

namespace ObjectHeap

/-! ### References -/

/-- The error of a count that cannot grow, on which the process aborts. -/
def refcountOverflow : BreadError where
  type := .memoryAllocation
  message := "Refcount overflow"

/-- `bread_object_retain` on a pointer that is not null. -/
def objectRetain (h : ObjectHeap) (r : Ref) : Exec ObjectHeap :=
  if ¬ h.Usable r then .error (.undefined .useAfterFree)
  else if h.count r = 0xFFFFFFFF then .error (.abort refcountOverflow)
  else .ok (h.retain r)

/-- `bread_value_clone`.  The clone is the value itself. -/
def valueClone (h : ObjectHeap) (v : HeapValue) : Exec ObjectHeap :=
  match v.ref? with
  | some r => h.objectRetain r
  | none => .ok h

/-- `bread_value_release` on one value after another.  A count of zero that a release
meets is that of an object that is being destroyed, which no string is while other
objects are released. -/
def releaseRefs (h : ObjectHeap) (rs : List Ref) : Exec ObjectHeap :=
  match RefCount.drain ObjectBody.children h (rs.map .release) with
  | some h => .ok h
  | none => .error (.undefined .useAfterFree)

/-- `bread_value_release`. -/
def valueRelease (h : ObjectHeap) (v : HeapValue) : Exec ObjectHeap :=
  h.releaseRefs v.refs

/-- `bread_memory_alloc`: an object with one reference, and the pointer to it. -/
def create (h : ObjectHeap) (b : ObjectBody) : Ref × ObjectHeap :=
  (h.size, h.alloc b)

/-- Change an object. -/
def write (h : ObjectHeap) (r : Ref) (b : ObjectBody) : Exec ObjectHeap :=
  match h.body r with
  | some _ => .ok (h.setBody r b)
  | none => .error (.undefined .useAfterFree)

/-- Replace the value of a slot: release the old one and store a clone of the new one.
`emptied` and `filled` are the object without a value in the slot and with the new
one. -/
def replaceValue (h : ObjectHeap) (r : Ref) (emptied : ObjectBody) (old new : HeapValue)
    (filled : ObjectBody) : Exec ObjectHeap := do
  let h ← h.write r emptied
  let h ← h.valueRelease old
  let h ← h.valueClone new
  h.write r filled

/-! ### Strings -/

/-- The characters of a string. -/
def stringAt (h : ObjectHeap) (r : Ref) : Exec BreadString :=
  match h.body r with
  | some (.string data) => .ok data
  | _ => .error (.undefined .useAfterFree)

/-- `bread_string_cstr` with `bread_string_len`. -/
def stringContents (h : ObjectHeap) : Option Ref → Exec BreadString
  | some r => h.stringAt r
  | none => .ok []

/-- `bread_string_new_len`. -/
def stringNew (h : ObjectHeap) (data : BreadString) : Ref × ObjectHeap :=
  h.create (.string data)

/-- `bread_string_concat`. -/
def stringConcat (h : ObjectHeap) (a b : Option Ref) : Exec (Ref × ObjectHeap) := do
  let left ← h.stringContents a
  let right ← h.stringContents b
  return h.stringNew (left ++ right)

end ObjectHeap

end BreadLang
