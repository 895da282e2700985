import BreadLang.Library.Chain
import BreadLang.Library.Run
import BreadLang.Runtime.Containers

/-!
# Programs that build objects

The state of the runtime that the constructors and mutators work on: the objects, the
table of interned strings, the registered definitions of classes, and the references
that the caller holds.  A definition is not among the objects, because a caller holds no
reference to one; it has a count of its own, and its parent is the number of another
definition.

A caller may pass every value that it can name, and may release what it holds.
-/

namespace BreadLang

/-! ### Instances of classes -/

/-- The instance that `bread_class_new_with_methods` makes. -/
def ClassBody.new (className : Ident) (parentName : Option Ident) (parentClass : Option ℕ)
    (fieldNames methodNames : List Ident) : ClassBody where
  className := className
  parentName := parentName
  parentClass := parentClass
  fieldNames := fieldNames
  fieldValues := fieldNames.map fun _ => .nil
  methodNames := methodNames

namespace ObjectHeap

/-- `bread_class_new_with_methods`. -/
def classNew (h : ObjectHeap) (className : Ident) (parentName : Option Ident)
    (fieldNames methodNames : List Ident) : Ref × ObjectHeap :=
  h.create (.instance (.new className parentName none fieldNames methodNames))

/-- `bread_class_set_field`. -/
def classSetField (h : ObjectHeap) (c : Option Ref) (name : Ident) (v : HeapValue) :
    Exec ObjectHeap :=
  match c with
  | none => .ok h
  | some r =>
      match h.body r with
      | some (.instance c) =>
          match findFieldIndex c.fieldNames name with
          | none => .ok h
          | some index =>
              match c.fieldValues[index]? with
              | none => .error (.undefined .outOfBounds)
              | some old =>
                  h.replaceValue r
                    (.instance { c with fieldValues := c.fieldValues.set index .nil }) old v
                    (.instance { c with fieldValues := c.fieldValues.set index v })
      | _ => .error (.undefined .useAfterFree)

/-- The default constructor of `bread_class_execute_constructor`: arguments are mapped to
fields by position. -/
def setFieldsByPosition (h : ObjectHeap) (r : Ref) : List Ident → List HeapValue → Exec ObjectHeap
  | name :: names, v :: vs => do
      let h ← h.classSetField (some r) name v
      h.setFieldsByPosition r names vs
  | _, _ => .ok h

/-- `bread_class_execute_constructor`, on an instance without a compiled constructor. -/
def classExecuteConstructor (h : ObjectHeap) (r : Ref) (args : List HeapValue) : Exec ObjectHeap :=
  match h.body r with
  | some (.instance c) => h.setFieldsByPosition r c.fieldNames args
  | _ => .error (.undefined .useAfterFree)

end ObjectHeap

/-! ### The state -/

/-- `BreadClass` of a registered definition: what instances take from it. -/
structure ClassDefinition where
  className : Ident
  parentClass : Option ℕ
  fieldNames : List Ident
  refcount : ℕ

/-- The state of the runtime. -/
structure ObjectState where
  heap : ObjectHeap
  interned : List (Option Ref)
  definitions : List ClassDefinition
  held : List HeapValue

/-- `INTERN_TABLE_SIZE`. -/
def internTableSize : ℕ := 256

/-- The state before the first object is made. -/
def ObjectState.init (definitions : List ClassDefinition) : ObjectState where
  heap := .empty
  interned := List.replicate internTableSize none
  definitions := definitions
  held := []

namespace ObjectState

/-! ### Interned strings -/

/-- `bread_string_hash`. -/
def stringHash (s : BreadString) : ℕ :=
  let hash : UInt32 :=
    s.foldl (fun hash c => ((hash <<< 5) + hash) + (UInt8.ofNat c.toNat).toUInt32) 5381
  hash.toNat % internTableSize

/-- The references of the table. -/
def internedRefs (s : ObjectState) : List Ref :=
  s.interned.flatMap Option.toList

/-- Whether the string of a bucket is the given one. -/
def holdsLiteral (s : ObjectState) (found : Option Ref) (data : BreadString) : Exec Bool :=
  match found with
  | some r => do return (← s.heap.stringAt r) == data
  | none => .ok false

/-- `bread_string_new_literal`.  A bucket has room for one string, and a new string takes
the place of the one in it. -/
def stringNewLiteral (s : ObjectState) (cstr : BreadString) : Exec (Ref × ObjectState) := do
  let data := cString cstr
  let bucket := stringHash data
  let found := s.interned[bucket]?.join
  match found, ← s.holdsLiteral found data with
  | some r, true => return (r, { s with heap := ← s.heap.objectRetain r })
  | _, _ =>
      let (r, h) := s.heap.stringNew data
      let h ← h.releaseRefs found.toList
      let h ← h.objectRetain r
      return (r, { s with heap := h, interned := s.interned.set bucket (some r) })

/-- `bread_string_intern_cleanup`. -/
def stringInternCleanup (s : ObjectState) : Exec ObjectState := do
  let h ← s.heap.releaseRefs s.internedRefs
  return { s with heap := h, interned := s.interned.map fun _ => none }

/-! ### Definitions of classes -/

/-- `bread_class_find_definition`. -/
def findDefinition (s : ObjectState) (name : Ident) : Option ClassDefinition :=
  s.definitions.find? fun c => c.className == name

/-- The definition that `parent_class` points to. -/
def parent (s : ObjectState) (c : ClassDefinition) : Option ClassDefinition :=
  c.parentClass.bind fun i => s.definitions[i]?

/-- `bread_class_collect_all_fields`.  A walk that gets around a cycle of parents adds up
the numbers of their fields until the sum overflows. -/
def collectAllFields (s : ObjectState) (c : ClassDefinition) : Exec (List Ident) :=
  match Walk.collect s.parent ClassDefinition.fieldNames (s.definitions.length + 1) c with
  | some names => .ok names
  | none => .error (.undefined .signedOverflow)

/-- `bread_class_retain` on a definition. -/
def retainDefinition (s : ObjectState) (i : ℕ) : Exec ObjectState :=
  match s.definitions[i]? with
  | none => .error (.undefined .useAfterFree)
  | some c =>
      if c.refcount = 0xFFFFFFFF then .error (.abort ObjectHeap.refcountOverflow)
      else .ok { s with
        definitions := s.definitions.set i { c with refcount := c.refcount + 1 } }

/-- `bread_class_create_instance`. -/
def classCreateInstance (s : ObjectState) (className : Ident) (parentName : Option Ident)
    (fieldNames methodNames : List Ident) : Exec (Ref × ObjectState) :=
  match s.findDefinition className with
  | none =>
      let (r, h) := s.heap.classNew className parentName fieldNames methodNames
      .ok (r, { s with heap := h })
  | some classDef => do
      let allFieldNames ← s.collectAllFields classDef
      let (r, h) := s.heap.create
        (.instance (.new className parentName classDef.parentClass allFieldNames methodNames))
      let s := { s with heap := h }
      match classDef.parentClass with
      | none => return (r, s)
      | some i => return (r, ← s.retainDefinition i)

end ObjectState

/-! ### Operations -/

/-- The constructors and mutators that work on the objects alone, and the clone of a
value. -/
inductive HeapOp where
  | valueClone (v : HeapValue)
  | stringNew (data : BreadString)
  | stringConcat (a b : Option Ref)
  | arrayNew (capacity : ℤ) (elementType : VarType)
  | arrayFromLiteral (elements : List HeapValue)
  | arrayRepeating (v : HeapValue) (count : ℤ)
  | arrayAppend (a : Option Ref) (v : HeapValue)
  | arraySet (a : Option Ref) (idx : ℤ) (v : HeapValue)
  | arraySetSafe (a : Option Ref) (index : ℤ) (v : HeapValue)
  | arrayInsert (a : Option Ref) (v : HeapValue) (index : ℤ)
  | arrayRemoveAt (a : Option Ref) (index : ℤ)
  | dictNew (capacity : ℤ) (keyType valueType : VarType)
  | dictFromLiteral (pairs : List (HeapValue × HeapValue))
  | dictSetSafe (d : Option Ref) (key value : HeapValue)
  | dictSet (r : Ref) (key : BreadString) (value : HeapValue)
  | dictRemove (d : Option Ref) (key : HeapValue)
  | dictClear (d : Option Ref)
  | dictKeys (d : Option Ref)
  | dictValues (d : Option Ref)
  | valueDictKeysAsValue (v : HeapValue)
  | dictGetWithDefault (d : Option Ref) (key default : HeapValue)
  | optionalNewNone
  | optionalNewSome (v : HeapValue)
  | structNew (typeName : Ident) (fieldNames : List Ident)
  | structSetField (s : Option Ref) (name : Ident) (v : HeapValue)
  | classNew (className : Ident) (parentName : Option Ident) (fieldNames methodNames : List Ident)
  | classSetField (c : Option Ref) (name : Ident) (v : HeapValue)
  | classExecuteConstructor (r : Ref) (args : List HeapValue)

/-- An operation on the objects.  It returns the values that the caller holds from then
on. -/
def ObjectHeap.perform (h : ObjectHeap) : HeapOp → Exec (List HeapValue × ObjectHeap)
  | .valueClone v => do return ([v], ← h.valueClone v)
  | .stringNew data =>
      let (r, h) := h.stringNew data
      .ok ([.string (some r)], h)
  | .stringConcat a b => do
      let (r, h) ← h.stringConcat a b
      return ([.string (some r)], h)
  | .arrayNew capacity elementType =>
      let (r, h) := h.arrayNew capacity elementType
      .ok ([.array (some r)], h)
  | .arrayFromLiteral elements => do
      let (r, h, _) ← h.arrayFromLiteral elements
      return ([.array r], h)
  | .arrayRepeating v count => do
      let (r, h) ← h.arrayRepeating v count
      return ([.array (some r)], h)
  | .arrayAppend a v => do return ([], (← h.arrayAppend a v).1)
  | .arraySet a idx v => do return ([], (← h.arraySet a idx v).1)
  | .arraySetSafe a index v => do return ([], (← h.arraySetSafe a index v).1)
  | .arrayInsert a v index => do return ([], (← h.arrayInsert a v index).1)
  | .arrayRemoveAt a index => do
      let (v, h) ← h.arrayRemoveAt a index
      return ([v], h)
  | .dictNew capacity keyType valueType =>
      let (r, h) := h.dictNew capacity keyType valueType
      .ok ([.dict (some r)], h)
  | .dictFromLiteral pairs => do
      let (r, h, _) ← h.dictFromLiteral pairs
      return ([.dict r], h)
  | .dictSetSafe d key value => do return ([], (← h.dictSetSafe d key value).1)
  | .dictSet r key value => do return ([], (← h.dictSet r key value).1)
  | .dictRemove d key => do
      let (result, h) ← h.dictRemove d key
      return (result.toOption.toList, h)
  | .dictClear d => do return ([], ← h.dictClear d)
  | .dictKeys d => do
      let (r, h) ← h.dictKeys d
      return ([.array r], h)
  | .dictValues d => do
      let (r, h) ← h.dictValues d
      return ([.array r], h)
  | .valueDictKeysAsValue v => do
      let (result, h) ← h.valueDictKeysAsValue v
      return (result.toList, h)
  | .dictGetWithDefault d key default => do
      let (v, h) ← h.dictGetWithDefault d key default
      return ([v], h)
  | .optionalNewNone =>
      let (r, h) := h.optionalNewNone
      .ok ([.optional (some r)], h)
  | .optionalNewSome v => do
      let (r, h) ← h.optionalNewSome v
      return ([.optional (some r)], h)
  | .structNew typeName fieldNames =>
      let (r, h) := h.structNew typeName fieldNames
      .ok ([.struct (some r)], h)
  | .structSetField s name v => do return ([], ← h.structSetField s name v)
  | .classNew className parentName fieldNames methodNames =>
      let (r, h) := h.classNew className parentName fieldNames methodNames
      .ok ([.class (some r)], h)
  | .classSetField c name v => do return ([], ← h.classSetField c name v)
  | .classExecuteConstructor r args => do return ([], ← h.classExecuteConstructor r args)

/-- An operation of the caller. -/
inductive ObjectOp where
  | onHeap (op : HeapOp)
  | release (v : HeapValue)
  | stringNewLiteral (cstr : BreadString)
  | stringInternCleanup
  | classCreateInstance (className : Ident) (parentName : Option Ident)
      (fieldNames methodNames : List Ident)

namespace ObjectState

/-- One operation, with the values that it gives to the caller. -/
def step (s : ObjectState) : ObjectOp → Exec (ObjectState × List HeapValue)
  | .onHeap op => do
      let (new, h) ← s.heap.perform op
      return ({ s with heap := h, held := new ++ s.held }, new)
  | .release v => do
      let h ← s.heap.valueRelease v
      return ({ s with heap := h, held := s.held.erase v }, [])
  | .stringNewLiteral cstr => do
      let (r, s) ← s.stringNewLiteral cstr
      return ({ s with held := .string (some r) :: s.held }, [.string (some r)])
  | .stringInternCleanup => do return (← s.stringInternCleanup, [])
  | .classCreateInstance className parentName fieldNames methodNames => do
      let (r, s) ← s.classCreateInstance className parentName fieldNames methodNames
      return ({ s with held := .class (some r) :: s.held }, [.class (some r)])

/-- The caller releases everything that it holds. -/
def releaseHeld (s : ObjectState) : Exec ObjectState := do
  let h ← s.heap.releaseRefs (valueRefs s.held)
  return { s with heap := h, held := [] }

end ObjectState

end BreadLang
