import BreadLang.Runtime.Containers

/-!
# Variables that hold objects

The variables of `var.c` over the heap of counted objects, and what an assignment does to
the counts.  A variable is a type and the union `VarValue`; the union is read through its
pointer, whatever type the pointer was written with.

The functions that release an object all do the same to one that has other references.
The last reference decides how the object is taken apart, so the kind of the release is
part of an outcome.
-/

namespace BreadLang

/-- The kind of an object: the type of the values that refer to it. -/
def ObjectBody.type : ObjectBody → VarType
  | .string _ => .typeString
  | .array _ => .typeArray
  | .dict _ => .typeDict
  | .optional _ => .typeOptional
  | .struct _ => .typeStruct
  | .instance _ => .typeClass

/-- A value refers to an object of its kind, or to none. -/
def HeapValue.Valid (h : ObjectHeap) (v : HeapValue) : Prop :=
  ∀ r, v.ref? = some r → ∃ b, h.body r = some b ∧ b.type = v.type

/-- `Variable`, with a pointer for every object. -/
structure HeapVariable where
  type : VarType
  value : HeapValue

/-- The value of a variable is of its type. -/
structure HeapVariable.Matches (h : ObjectHeap) (v : HeapVariable) : Prop where
  type : v.value.type = v.type
  valid : v.value.Valid h

/-! ### Numbers -/

/-- What the machine makes of floating point numbers.  The integer part is the number
truncated towards zero; an infinity and what is not a number have none. -/
structure FloatConversions where
  intToDouble : BreadInt → DoubleBits
  floatToDouble : FloatBits → DoubleBits
  intToFloat : BreadInt → FloatBits
  doubleToFloat : DoubleBits → FloatBits
  doublePart : DoubleBits → Option ℤ
  floatPart : FloatBits → Option ℤ

/-- An integer part fits an `int`. -/
def FitsInt (part : Option ℤ) : Prop :=
  ∃ n, part = some n ∧ -2 ^ 31 ≤ n ∧ n < 2 ^ 31

/-- The conversion `(int)` of a number with that integer part. -/
def castToInt (part : Option ℤ) : Exec BreadInt :=
  match part with
  | some n =>
      if -2 ^ 31 ≤ n ∧ n < 2 ^ 31 then .ok (.wrap n) else .error (.undefined .signedOverflow)
  | none => .error (.undefined .signedOverflow)

/-- `try_numeric_coercion`. -/
def FloatConversions.tryNumericCoercion (c : FloatConversions) (target : VarType)
    (source : HeapValue) : Exec (Option HeapValue) :=
  match target, source with
  | .typeDouble, .int n => .ok (some (.double (c.intToDouble n)))
  | .typeDouble, .float f => .ok (some (.double (c.floatToDouble f)))
  | .typeFloat, .int n => .ok (some (.float (c.intToFloat n)))
  | .typeFloat, .double d => .ok (some (.float (c.doubleToFloat d)))
  | .typeInt, .double d => do return some (.int (← castToInt (c.doublePart d)))
  | .typeInt, .float f => do return some (.int (← castToInt (c.floatPart f)))
  | _, _ => .ok none

namespace ObjectHeap

/-! ### Releases -/

/-- `bread_array_release` and the functions like it, each for one kind of object.  The
last reference of an object of another kind has it taken apart by the layout of the
wrong structure. -/
def releaseAs (h : ObjectHeap) (kind : VarType) : Option Ref → Exec ObjectHeap
  | none => .ok h
  | some r =>
      match h.body r with
      | some b =>
          if b.type ≠ kind ∧ h.count r = 1 then .error (.undefined .outOfBounds)
          else h.releaseRefs [r]
      | none => h.releaseRefs [r]

/-! ### Assignment -/

/-- `try_optional_coercion`: the new optional. -/
def tryOptionalCoercion (h : ObjectHeap) (target : VarType) (source : HeapValue) :
    Exec (Option (Ref × ObjectHeap)) :=
  if target ≠ .typeOptional then .ok none
  else if source.type = .typeNil then .ok (some h.optionalNewNone)
  else if source.type ≠ .typeOptional then some <$> h.optionalNewSome source
  else .ok none

/-- What is to be stored in a variable, and the type that the variable gets. -/
structure Coerced where
  type : VarType
  value : HeapValue
  heap : ObjectHeap
  newOptional : Option Ref

/-- The first part of `coerce_and_assign`.  There is nothing to store when the types do
not go together. -/
def coerce (c : FloatConversions) (h : ObjectHeap) (type : VarType) (source : HeapValue) :
    Exec (Option Coerced) :=
  if type = .typeNil then .ok (some ⟨source.type, source, h, none⟩)
  else if type = source.type then .ok (some ⟨type, source, h, none⟩)
  else do
    match ← c.tryNumericCoercion type source with
    | some value => return some ⟨type, value, h, none⟩
    | none =>
        match ← h.tryOptionalCoercion type source with
        | some (r, h) => return some ⟨type, .optional (some r), h, some r⟩
        | none =>
            if type = .typeStruct ∧ source.type = .typeClass then
              return some ⟨.typeClass, source, h, none⟩
            else return none

/-- The outcome of an assignment.  `released` is the kind of object that the release of the
old value was for. -/
structure Assignment where
  success : Bool
  target : HeapVariable
  heap : ObjectHeap
  released : Option VarType

/-- The case `TYPE_STRING` of the switch.  A string that is `NULL` is replaced by an empty
one. -/
def replaceString (h : ObjectHeap) (old new : Option Ref) : Exec (Ref × ObjectHeap) :=
  match new with
  | some s => do
      let h ← h.objectRetain s
      return (s, ← h.releaseAs .typeString old)
  | none => do
      let (s, h) := h.stringNew []
      return (s, ← h.releaseAs .typeString old)

/-- The cases of the switch for the other objects: the old one is released before the new
one is retained. -/
def replaceObject (h : ObjectHeap) (kind : VarType) (old : Option Ref) (new : HeapValue) :
    Exec ObjectHeap := do
  let h ← h.releaseAs kind old
  h.valueClone new

/-- The switch of `coerce_and_assign`.  The branch of `TYPE_STRUCT` for an instance is
never taken, because the type of the variable is `TYPE_CLASS` by then. -/
def Coerced.store (new : Coerced) (old : HeapValue) : Exec Assignment :=
  match new.type with
  | .typeString => do
      let (s, h) ← new.heap.replaceString old.ref? new.value.ref?
      return ⟨true, ⟨.typeString, .string (some s)⟩, h, old.ref?.map fun _ => .typeString⟩
  | .typeInt | .typeBool | .typeFloat | .typeDouble =>
      .ok ⟨true, ⟨new.type, new.value⟩, new.heap, none⟩
  | .typeNil => .ok ⟨true, ⟨.typeNil, old⟩, new.heap, none⟩
  | kind => do
      let h ← new.heap.replaceObject kind old.ref? new.value
      return ⟨true, ⟨kind, new.value⟩, h, old.ref?.map fun _ => kind⟩

/-- `coerce_and_assign` of `var.c`. -/
def coerceAndAssign (c : FloatConversions) (h : ObjectHeap) (target : HeapVariable)
    (source : HeapValue) : Exec Assignment := do
  match ← h.coerce c target.type source with
  | none => return ⟨false, target, h, none⟩
  | some new =>
      let out ← new.store target.value
      return { out with heap := ← out.heap.releaseAs .typeOptional new.newOptional }

end ObjectHeap

end BreadLang
