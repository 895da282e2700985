import BreadLang.Core.Value

/-!
# Type descriptors

The structured types of the language, as the parser builds them and the code
generator compares them.  A descriptor of the C code is a tag and a union; here
the constructor is the tag, so a descriptor whose payload does not go with its
tag cannot be built.  `clone` and `free` have no counterpart.

Two relations on descriptors decide what the semantic analysis accepts:
`equals`, which is structural except that classes are compared by name, and the
wider `compatible`, which is not symmetric.
-/

namespace BreadLang

/-- A name of the source program. -/
abbrev Ident := List Char

/-- `TypeDescriptor`.  The method table of a class descriptor is left out: it is
always empty. -/
inductive TypeDescriptor where
  | string
  | int
  | bool
  | float
  | double
  | nil
  | array (elementType : TypeDescriptor)
  | dict (keyType valueType : TypeDescriptor)
  | optional (wrappedType : TypeDescriptor)
  | struct (name : Ident) (fields : List (Ident × TypeDescriptor))
  | class (name : Ident) (parentName : Option Ident) (fields : List (Ident × TypeDescriptor))

namespace TypeDescriptor

/-- `base_type`. -/
def baseType : TypeDescriptor → VarType
  | .string => .typeString
  | .int => .typeInt
  | .bool => .typeBool
  | .float => .typeFloat
  | .double => .typeDouble
  | .nil => .typeNil
  | .array _ => .typeArray
  | .dict _ _ => .typeDict
  | .optional _ => .typeOptional
  | .struct _ _ => .typeStruct
  | .class _ _ _ => .typeClass

/-- `type_descriptor_create_primitive`. -/
def createPrimitive : VarType → Option TypeDescriptor
  | .typeString => some .string
  | .typeInt => some .int
  | .typeBool => some .bool
  | .typeFloat => some .float
  | .typeDouble => some .double
  | .typeNil => some .nil
  | .typeArray | .typeDict | .typeOptional | .typeStruct | .typeClass => none

mutual

/-- `type_descriptor_equals`. -/
def equals : TypeDescriptor → TypeDescriptor → Bool
  | .array a, .array b => a.equals b
  | .dict key value, .dict key' value' => key.equals key' && value.equals value'
  | .optional a, .optional b => a.equals b
  | .struct name fields, .struct name' fields' =>
      name == name' && equalsFields fields fields'
  | .class name _ _, .class name' _ _ => name == name'
  | .string, .string | .int, .int | .bool, .bool => true
  | .float, .float | .double, .double | .nil, .nil => true
  | _, _ => false

/-- The comparison of the fields of two structs: as many, with the same names
and equal types, in order. -/
def equalsFields : List (Ident × TypeDescriptor) → List (Ident × TypeDescriptor) → Bool
  | [], [] => true
  | (name, a) :: fields, (name', b) :: fields' =>
      name == name' && a.equals b && equalsFields fields fields'
  | _, _ => false

end

/-- `type_descriptor_compatible`: whether a value of the first type may stand
where the second is expected. -/
def compatible (source target : TypeDescriptor) : Bool :=
  source.equals target ||
    match source, target with
    -- structs and classes are compared by name, also with each other
    | .struct name _, .class name' _ _ => name == name'
    | .class name _ _, .struct name' _ => name == name'
    | .struct name _, .struct name' _ => name == name'
    | .class name _ _, .class name' _ _ => name == name'
    -- an empty array or dictionary literal fits every array or dictionary
    | .array a, .array b => a.baseType == .typeNil || a.compatible b
    | .dict key value, .dict key' value' =>
        (key.baseType == .typeNil && value.baseType == .typeNil) ||
          (key.compatible key' && value.compatible value')
    | .nil, .optional _ => true
    | _, .optional wrapped => source.equals wrapped
    | _, _ => false

end TypeDescriptor

end BreadLang
