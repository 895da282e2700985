import BreadLang.Core.TypeDescriptor

/-!
# The variables of the runtime

The stack of scopes of `var.c` and the runtime calls on it that generated code
makes.  A scope is an array of variables in the order of their declarations, and
a name is looked up from the innermost scope outwards.  Nothing in the stack says
which call a scope belongs to.

A variable's type is the tag of its value, so a variable whose value is not of
its type cannot be built.  `coerceAndAssign` is what an assignment does to a value
of another type; the conversions of the machine between numbers are a parameter.
Reference counts are left out.
-/

namespace BreadLang

/-- The bit pattern of a `float`. -/
structure FloatBits where
  bits : UInt32
  deriving DecidableEq

/-- The value of a variable: the member of the union `VarValue` that its tag
selects.  A pointer may be `NULL`, and an optional is what its box holds. -/
inductive VarValue where
  | nil
  | string (s : BreadString)
  | int (n : BreadInt)
  | bool (b : Bool)
  | float (f : FloatBits)
  | double (d : DoubleBits)
  | array (r : Option Ref)
  | dict (r : Option Ref)
  | optionalNull
  | optionalNone
  | optionalSome (inner : VarValue)
  | struct (r : Option Ref)
  | class (r : Option Ref)
  deriving DecidableEq

/-- The tag of a value. -/
def VarValue.type : VarValue → VarType
  | .nil => .typeNil
  | .string _ => .typeString
  | .int _ => .typeInt
  | .bool _ => .typeBool
  | .float _ => .typeFloat
  | .double _ => .typeDouble
  | .array _ => .typeArray
  | .dict _ => .typeDict
  | .optionalNull | .optionalNone | .optionalSome _ => .typeOptional
  | .struct _ => .typeStruct
  | .class _ => .typeClass

/-- The value of a variable whose union is filled with zeros. -/
def VarType.zero : VarType → VarValue
  | .typeString => .string []
  | .typeInt => .int 0
  | .typeBool => .bool false
  | .typeFloat => .float ⟨0⟩
  | .typeDouble => .double ⟨0⟩
  | .typeArray => .array none
  | .typeDict => .dict none
  | .typeOptional => .optionalNull
  | .typeStruct => .struct none
  | .typeClass => .class none
  | .typeNil => .nil

@[simp] theorem VarType.type_zero (t : VarType) : t.zero.type = t := by
  cases t <;> rfl

/-- The conversions of the machine between numbers. -/
structure NumericCasts where
  intToDouble : BreadInt → DoubleBits
  floatToDouble : FloatBits → DoubleBits
  intToFloat : BreadInt → FloatBits
  doubleToFloat : DoubleBits → FloatBits
  doubleToInt : DoubleBits → BreadInt
  floatToInt : FloatBits → BreadInt

/-- `Variable`. -/
structure Variable where
  name : Ident
  value : VarValue
  isConst : Bool
  deriving DecidableEq

/-- The type of a variable. -/
def Variable.type (v : Variable) : VarType :=
  v.value.type

/-- `VarScope`. -/
abbrev VarScope := List Variable

/-- The scopes that are in use, the innermost one first. -/
abbrev ScopeStack := List VarScope

/-- `MAX_VARS`. -/
def maxVars : ℕ := 256

/-- `MAX_SCOPES`. -/
def maxScopes : ℕ := 64

/-! ### Coercion -/

/-- `try_numeric_coercion`. -/
def tryNumericCoercion (casts : NumericCasts) (target : VarType) (source : VarValue) :
    Option VarValue :=
  match target, source with
  | .typeDouble, .int n => some (.double (casts.intToDouble n))
  | .typeDouble, .float f => some (.double (casts.floatToDouble f))
  | .typeFloat, .int n => some (.float (casts.intToFloat n))
  | .typeFloat, .double d => some (.float (casts.doubleToFloat d))
  | .typeInt, .double d => some (.int (casts.doubleToInt d))
  | .typeInt, .float f => some (.int (casts.floatToInt f))
  | _, _ => none

/-- `try_optional_coercion`, when the types differ. -/
def tryOptionalCoercion (target : VarType) (source : VarValue) : Option VarValue :=
  match target, source with
  | .typeOptional, .nil => some .optionalNone
  | .typeOptional, source => some (.optionalSome source)
  | _, _ => none

/-- `coerce_and_assign` of `var.c`: the value of a variable after the assignment.
`none` is a mismatch of the types, which is printed and changes nothing. -/
def coerceAndAssign (casts : NumericCasts) (target source : VarValue) : Option VarValue :=
  if target.type = .typeNil ∨ target.type = source.type then
    some source
  else
    match tryNumericCoercion casts target.type source with
    | some value => some value
    | none =>
        match tryOptionalCoercion target.type source with
        | some value => some value
        | none =>
            if target.type = .typeStruct ∧ source.type = .typeClass then some source else none

/-! ### Scopes and look-up -/

/-- The name can be that of a variable: it is not empty, and it fits the buffers. -/
def isVariableName (name : Ident) : Bool :=
  name.length != 0 && name.length < 255

/-- The variable of that name in a scope. -/
def VarScope.find (scope : VarScope) (name : Ident) : Option Variable :=
  List.find? (·.name == name) scope

/-- `get_variable`. -/
def getVariable (scopes : ScopeStack) (name : Ident) : Option Variable :=
  if isVariableName name then scopes.findSome? (·.find name) else none

/-- The scope with another value of a variable. -/
def VarScope.set : VarScope → Ident → VarValue → VarScope
  | [], _, _ => []
  | v :: scope, name, value =>
      if v.name = name then { v with value } :: scope else v :: VarScope.set scope name value

/-- A write through the pointer that `get_variable` returns. -/
def setVariable : ScopeStack → Ident → VarValue → ScopeStack
  | [], _, _ => []
  | scope :: scopes, name, value =>
      if (scope.find name).isSome then scope.set name value :: scopes
      else scope :: setVariable scopes name value

/-- An error on which the process is aborted. -/
def runtimeAbort {α : Type} (message : String) : Exec α :=
  .error (.abort ⟨.runtimeError, message⟩)

/-- `push_scope`. -/
def pushScope (scopes : ScopeStack) : Exec ScopeStack :=
  if maxScopes ≤ scopes.length then runtimeAbort "Scope stack overflow"
  else .ok ([] :: scopes)

/-- `pop_to_scope_depth`. -/
def popToScopeDepth (scopes : ScopeStack) (target : ℕ) : Exec ScopeStack :=
  if target < 1 then runtimeAbort "Invalid target scope depth"
  else if scopes.length < target then runtimeAbort "Cannot pop to a deeper scope depth"
  else .ok (scopes.drop (scopes.length - target))

/-! ### Declarations -/

/-- `declare_variable_raw`, with the value that a zeroed union has. -/
def declareVariableRaw (scopes : ScopeStack) (name : Ident) (type : VarType) (isConst : Bool) :
    Exec ScopeStack :=
  match scopes with
  | [] => runtimeAbort "Variable system not initialized"
  | scope :: rest =>
      if (scope.find name).isSome && name.length < 255 then
        runtimeAbort "Variable already declared"
      else if maxVars ≤ scope.length then
        runtimeAbort "Too many variables in scope"
      else if 255 ≤ name.length then
        runtimeAbort "Variable name too long"
      else
        .ok ((scope ++ [⟨name, type.zero, isConst⟩]) :: rest)

/-- The assignment to a variable that has been found; the `Bool` is the result of
the C function. -/
def assignFound (casts : NumericCasts) (scopes : ScopeStack) (v : Variable) (value : VarValue) :
    Bool × ScopeStack :=
  match coerceAndAssign casts v.value value with
  | none => (false, scopes)
  | some value => (true, setVariable scopes v.name value)

/-- `bread_var_decl`. -/
def breadVarDecl (casts : NumericCasts) (scopes : ScopeStack) (name : Ident) (type : VarType)
    (isConst : Bool) (init : Option VarValue) : Exec (Bool × ScopeStack) := do
  let scopes ← declareVariableRaw scopes name type isConst
  match init with
  | none => return (true, scopes)
  | some value =>
      match getVariable scopes name with
      | none => return (false, scopes)
      | some v => return assignFound casts scopes v value

/-- `bread_var_decl_if_missing`. -/
def breadVarDeclIfMissing (casts : NumericCasts) (scopes : ScopeStack) (name : Ident)
    (type : VarType) (isConst : Bool) (init : Option VarValue) : Exec (Bool × ScopeStack) :=
  match getVariable scopes name with
  | some _ => .ok (true, scopes)
  | none => breadVarDecl casts scopes name type isConst init

/-- `bread_var_assign`. -/
def breadVarAssign (casts : NumericCasts) (scopes : ScopeStack) (name : Ident)
    (value : VarValue) : Exec (Bool × ScopeStack) :=
  match getVariable scopes name with
  | none => .ok (false, scopes)
  | some v =>
      if v.isConst then runtimeAbort "Cannot assign to constant variable"
      else .ok (assignFound casts scopes v value)

/-- `bread_var_load`. -/
def breadVarLoad (scopes : ScopeStack) (name : Ident) : Option VarValue :=
  (getVariable scopes name).map (·.value)

end BreadLang
