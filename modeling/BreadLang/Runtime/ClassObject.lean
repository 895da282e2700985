import BreadLang.Compiler.Ast
import BreadLang.Core.Value
import Mathlib.Data.List.Infix

/-!
# Classes with their fields and constructors

`BreadClass` in full: the fields, the methods and the constructor of a
definition or an instance, over any type `F` of function pointers.  The registry
is the array of definitions.  Its names are distinct in every use that is made of
it here, so the pointer `parent_class` is the name of the definition it points
to.  The names of fields and methods come from declarations and are never null.
-/

namespace BreadLang

variable {F : Type}

/-- `BreadClass`.  `fieldValues` has an entry for each field, and
`compiledMethods` one for each method. -/
structure ClassObject (F : Type) where
  className : Ident
  parentName : Option Ident
  parentClass : Option Ident
  fieldNames : List Ident
  fieldValues : List BreadValue
  methodNames : List Ident
  compiledMethods : List (Option F)
  compiledConstructor : Option F

namespace ClassObject

/-- `bread_class_new_with_methods`. -/
def newWithMethods (className : Ident) (parentName : Option Ident) (fieldNames : List Ident)
    (methodNames : List Ident) : ClassObject F where
  className := className
  parentName := parentName
  parentClass := none
  fieldNames := fieldNames
  fieldValues := fieldNames.map fun _ => .nil
  methodNames := methodNames
  compiledMethods := methodNames.map fun _ => none
  compiledConstructor := none

/-- `bread_class_find_field_index`. -/
def findFieldIndex (c : ClassObject F) (name : Ident) : Option ℕ :=
  c.fieldNames.findIdx? fun field => field == name

/-- `bread_class_set_field` and `bread_class_set_field_value_ptr`. -/
def setField (c : ClassObject F) (name : Ident) (value : BreadValue) : ClassObject F :=
  match c.findFieldIndex name with
  | some index => { c with fieldValues := c.fieldValues.set index value }
  | none => c

/-- `bread_class_find_method_index`. -/
def findMethodIndex (c : ClassObject F) (name : Ident) : Option ℕ :=
  c.methodNames.findIdx? fun method => method == name

/-- `bread_class_set_compiled_method`. -/
def setCompiledMethod (c : ClassObject F) (index : ℕ) (fn : F) : ClassObject F :=
  { c with compiledMethods := c.compiledMethods.set index (some fn) }

/-- The compiled method at an index. -/
def compiledMethod (c : ClassObject F) (index : ℕ) : Option F :=
  c.compiledMethods[index]?.join

/-- The default constructor: arguments are mapped to fields by position. -/
def setFieldsByPosition (c : ClassObject F) : List Ident → List BreadValue → ClassObject F
  | name :: names, value :: values => (c.setField name value).setFieldsByPosition names values
  | _, _ => c

end ClassObject

end BreadLang
