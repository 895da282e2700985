import BreadLang.Codegen.Context

/-!
# Inferring the type of an expression

`cg_infer_expr_type_desc_simple`, which the semantic analysis uses, and
`cg_infer_expr_type_desc_with_function`, which the code generator uses for the
iterable of a `for`-`in` loop.  The two agree on literals and differ on most
other expressions; the second one also expects comparison operators under codes
that the parser never produces.
-/

namespace BreadLang

/-! ### Built-in functions -/

/-- The part of `BuiltinFunction` that the compiler reads. -/
structure BuiltinFunction where
  name : Ident
  paramCount : ℕ
  returnType : VarType

/-- `register_builtin_functions`. -/
def builtins : List BuiltinFunction :=
  [⟨"len".toList, 1, .typeInt⟩, ⟨"type".toList, 1, .typeString⟩,
    ⟨"str".toList, 1, .typeString⟩, ⟨"int".toList, 1, .typeInt⟩,
    ⟨"float".toList, 1, .typeFloat⟩, ⟨"double".toList, 1, .typeDouble⟩,
    ⟨"input".toList, 1, .typeString⟩]

/-- `bread_builtin_lookup`, once the built-in functions are registered. -/
def builtinLookup (name : Ident) : Option BuiltinFunction :=
  builtins.find? fun b => b.name == name

/-! ### Types of the constructs, given the types of their parts -/

/-- A descriptor, or `NULL`. -/
def orNull {α : Type} : Option α → CgResult α
  | some a => .ok a
  | none => failed

/-- Two inferences, both of which are made before either result is tested. -/
def inferBoth {α β : Type} : CgResult α → CgResult β → CgResult (α × β)
  | .ok a, .ok b => .ok (a, b)
  | .error (.failed e), .error (.failed e') => .error (.failed (e' <|> e))
  | .error (.failed _), .error stop => .error stop
  | .error stop, _ => .error stop
  | .ok _, .error stop => .error stop

/-- The declared return type of a function or method. -/
def returnTypeDescOf (type : VarType) (typeDesc : Option TypeDescriptor) :
    CgResult TypeDescriptor :=
  match typeDesc with
  | some d => .ok d
  | none => orNull (TypeDescriptor.createPrimitive type)

/-- The return type of an entry of the table of functions.  The entry that code
generation adds has these fields unset, and reading them is undefined. -/
def CgFunction.returnTypeDesc (f : CgFunction) : CgResult TypeDescriptor :=
  match f.returnInfo with
  | some (type, typeDesc) => returnTypeDescOf type typeDesc
  | none => .error .crashed

/-- `type_descriptor_create_class` for an entry of the table of classes. -/
def CgClass.typeDesc (c : CgClass) : TypeDescriptor :=
  .class c.name c.parentName c.fields

def isArithmeticOp (op : Char) : Bool :=
  op == '+' || op == '-' || op == '*' || op == '/' || op == '%'

def isNumeric (d : TypeDescriptor) : Bool :=
  d.baseType == .typeInt || d.baseType == .typeDouble || d.baseType == .typeFloat

/-- The binary case of `cg_infer_expr_type_desc_simple`. -/
def binaryTypeDesc (op : Char) (left right : TypeDescriptor) : CgResult TypeDescriptor :=
  if isArithmeticOp op then
    if op == '+' && left.baseType == .typeString && right.baseType == .typeString then
      .ok left
    else if !left.equals right then
      cgTypeError "Type mismatch in binary operation - no implicit coercion allowed"
        left right
    else if !isNumeric left then
      cgError "Arithmetic operations require numeric types" none
    else if left.baseType == .typeInt then
      .ok left
    else
      .ok .double
  else if op == '<' || op == '>' || op == 'l' || op == 'g' || op == '=' || op == '!' then
    .ok .bool
  else if op == '&' || op == '|' then
    if left.baseType != .typeBool || right.baseType != .typeBool then
      cgError "Logical operations require Bool operands" none
    else
      .ok .bool
  else
    failed

/-- The unary case of `cg_infer_expr_type_desc_simple`. -/
def unaryTypeDesc (op : Char) (operand : TypeDescriptor) : CgResult TypeDescriptor :=
  if op == '-' then
    if !isNumeric operand then
      cgError "Numeric negation requires numeric type" none
    else if operand.baseType == .typeInt then
      .ok operand
    else
      .ok .double
  else if op == '!' then
    if operand.baseType != .typeBool then
      cgError "Logical negation requires Bool type" none
    else
      .ok .bool
  else
    failed

/-- The index case of `cg_infer_expr_type_desc_simple`. -/
def indexTypeDesc (target index : TypeDescriptor) : CgResult TypeDescriptor :=
  match target with
  | .array element =>
      if index.compatible .int then .ok element
      else cgTypeError "Array index must be Int" .int index
  | .dict key value =>
      if index.compatible key then .ok value
      else cgTypeError "Dictionary index type mismatch" key index
  | .string =>
      if index.compatible .int then .ok .string
      else cgTypeError "String index must be Int" .int index
  | _ => cgError "Indexing is only valid on Array, Dict, or String" none

namespace Cg

variable (cg : Cg)

/-- The declaration of a method in a class. -/
def ownMethodDecl (c : CgClass) (name : Ident) : Option FuncDecl :=
  c.methods.find? fun m => m.name == name

/-- `cg_find_class_method_decl`. -/
def findClassMethodDecl (c : CgClass) (name : Ident) : CgResult (Option FuncDecl) :=
  cg.searchAncestors c fun c => .ok (ownMethodDecl c name)

/-- `cg_type_desc_get_nominal_name`. -/
def nominalName : TypeDescriptor → Option Ident
  | .class name _ _ => some name
  | .struct name _ => some name
  | _ => none

/-- `cg_common_superclass_desc`: the nearest ancestor of the first class that is
an ancestor of the second. -/
def commonSuperclassDesc (a b : TypeDescriptor) : CgResult (Option TypeDescriptor) :=
  match (nominalName a).bind cg.findClass, (nominalName b).bind cg.findClass with
  | some ca, some cb =>
      cg.searchAncestors ca fun a =>
        cg.searchAncestors cb fun b =>
          .ok (if a.name == b.name then some a.typeDesc else none)
  | _, _ => .ok none

/-- The call case of `cg_infer_expr_type_desc_simple`. -/
def callTypeDesc (name : Ident) : CgResult TypeDescriptor :=
  if name == "range".toList then
    .ok (.array .int)
  else
    match builtinLookup name with
    | some builtin => orNull (TypeDescriptor.createPrimitive builtin.returnType)
    | none =>
        match cg.findFunction name with
        | some func => func.returnTypeDesc
        | none =>
            match cg.findClass name with
            | some c => .ok c.typeDesc
            | none => cgError "Unknown function or class" (some name)

/-- The method call case of `cg_infer_expr_type_desc_simple`.  What is not known
at compile time is left to the runtime and has type `Nil`. -/
def methodTypeDesc (target : TypeDescriptor) (name : Ident) : CgResult TypeDescriptor :=
  match (nominalName target).bind cg.findClass with
  | none => .ok .nil
  | some c =>
      if name == "init".toList then
        .ok .nil
      else do
        match ← cg.findClassMethodDecl c name with
        | none => return .nil
        | some method => returnTypeDescOf method.returnType method.returnTypeDesc

/-- The type of a field in a list of fields. -/
def fieldType (fields : List (Ident × TypeDescriptor)) (name : Ident) :
    Option TypeDescriptor :=
  (fields.find? fun f => f.1 == name).map Prod.snd

/-- The member case of `cg_infer_expr_type_desc_simple`. -/
def memberTypeDesc (target : TypeDescriptor) (member : Ident) : CgResult TypeDescriptor :=
  if member == "length".toList then
    .ok .int
  else
    match target with
    | .dict _ value => .ok value
    | .struct name _ =>
        .ok (((cg.findStruct name).bind fun s => fieldType s.fields member).getD .nil)
    | .class name _ _ =>
        match cg.findClass name with
        | none => cgError "Unknown class field" (some member)
        | some c => do
            match ← cg.searchAncestors c fun c => .ok (fieldType c.fields member) with
            | some type => return type
            | none => cgError "Unknown class field" (some member)
    | _ => cgError "Member access is only valid on Dict, Struct, or Class" none

/-! ### Inference -/

mutual

/-- `cg_infer_expr_type_desc_simple`. -/
def inferTypeDesc : ASTExpr → CgResult TypeDescriptor
  | .int _ => .ok .int
  | .double _ => .ok .double
  | .bool _ => .ok .bool
  | .string _ | .stringLiteral _ => .ok .string
  | .nil => .ok .nil
  | .var name => orNull ((cg.findVarInScope name).bind CgVar.typeDesc)
  | .call name _ => cg.callTypeDesc name
  | .methodCall target name _ _ => do
      cg.methodTypeDesc (← inferTypeDesc target) name
  | .binary op left right => do
      let (left, right) ← inferBoth (inferTypeDesc left) (inferTypeDesc right)
      binaryTypeDesc op left right
  | .unary op operand => do
      unaryTypeDesc op (← inferTypeDesc operand)
  | .arrayLiteral [] => .ok (.array .nil)
  | .arrayLiteral (element :: elements) => do
      let type ← inferTypeDesc element
      return .array (← inferElements type elements)
  | .dict [] => .ok (.dict .nil .nil)
  | .dict ((key, value) :: entries) => do
      let (key, value) ← inferBoth (inferTypeDesc key) (inferTypeDesc value)
      inferEntries key value entries
      return .dict key value
  | .index target index => do
      let target ← inferTypeDesc target
      let index ← inferTypeDesc index
      indexTypeDesc target index
  | .member target member _ => do
      cg.memberTypeDesc (← inferTypeDesc target) member
  | .structLiteral name fields => do
      return .struct name (← inferFields fields)
  | .classLiteral name fields => do
      return .class name none (← inferFields fields)
  | .null | .self | .super | .array _ => failed

/-- The loop over the elements of an array literal after the first: the element
type so far is widened to a common superclass where it has to be. -/
def inferElements (type : TypeDescriptor) : List ASTExpr → CgResult TypeDescriptor
  | [] => .ok type
  | element :: elements => do
      let t ← inferTypeDesc element
      if type.equals t then
        inferElements type elements
      else
        match ← cg.commonSuperclassDesc type t with
        | some common => inferElements common elements
        | none => cgTypeError "Array literal elements must have same type" type t

/-- The loop over the entries of a dictionary literal after the first. -/
def inferEntries (key value : TypeDescriptor) : List (ASTExpr × ASTExpr) → CgResult Unit
  | [] => .ok ()
  | (k, v) :: entries => do
      let (k, v) ← inferBoth (inferTypeDesc k) (inferTypeDesc v)
      if !key.equals k || !value.equals v then
        cgError "Dict literal entries must have consistent key/value types" none
      else
        inferEntries key value entries

/-- The loop over the field values of a struct or class literal. -/
def inferFields : List (Ident × ASTExpr) → CgResult (List (Ident × TypeDescriptor))
  | [] => .ok []
  | (name, value) :: fields => do
      let type ← inferTypeDesc value
      return (name, type) :: (← inferFields fields)

end

/-! ### Inference inside a function -/

/-- The variable case of `cg_infer_expr_type_desc_with_function`. -/
def varTypeDescWithFunction (fn : Option CgCallee) (name : Ident) : CgResult TypeDescriptor :=
  let var := fn.bind fun _ => cg.scopeFindVar name
  match var.bind CgVar.typeDesc with
  | some d => .ok d
  | none =>
      let param := fn.bind fun f =>
        if f.hasParamTypes then f.params.find? fun p => p.name == name else none
      match param.bind ASTParam.typeDesc with
      | some d => .ok d
      | none =>
          match var with
          | some _ => failed
          | none => orNull ((cg.findVar name).bind CgVar.typeDesc)

/-- The binary case of `cg_infer_expr_type_desc_with_function`. -/
def binaryTypeDescWithFunction (op : Char) (left right : TypeDescriptor) :
    CgResult TypeDescriptor :=
  if isArithmeticOp op then
    if left.baseType == .typeInt && right.baseType == .typeInt then
      .ok .int
    else if isNumeric left && isNumeric right then
      .ok .double
    else if op == '+' && left.baseType == .typeString && right.baseType == .typeString then
      .ok .string
    else
      failed
  else if op == '<' || op == '>' || op == 'L' || op == 'G' || op == 'E' || op == 'N' then
    .ok .bool
  else if op == '&' || op == '|' then
    if left.baseType == .typeBool && right.baseType == .typeBool then .ok .bool else failed
  else
    failed

/-- The unary case of `cg_infer_expr_type_desc_with_function`. -/
def unaryTypeDescWithFunction (op : Char) (operand : TypeDescriptor) :
    CgResult TypeDescriptor :=
  if op == '-' then
    if operand.baseType == .typeInt || operand.baseType == .typeDouble then .ok operand
    else failed
  else if op == '!' then
    if operand.baseType == .typeBool then .ok .bool else failed
  else
    failed

/-- The method call case of `cg_infer_expr_type_desc_with_function`. -/
def methodTypeDescWithFunction (target : TypeDescriptor) (name : Ident) :
    CgResult TypeDescriptor :=
  match target with
  | .array _ => if name == "append".toList then .ok .nil else failed
  | .dict _ _ => if name == "set".toList then .ok .nil else failed
  | .class _ _ _ => .ok .nil
  | _ => failed

/-- The call case of `cg_infer_expr_type_desc_with_function`. -/
def callTypeDescWithFunction (name : Ident) : CgResult TypeDescriptor :=
  if name == "range".toList then
    .ok (.array .int)
  else
    match builtinLookup name with
    | some builtin => orNull (TypeDescriptor.createPrimitive builtin.returnType)
    | none =>
        match cg.findFunction name with
        | some func => func.returnTypeDesc
        | none => failed

/-- `cg_infer_expr_type_desc_with_function`. -/
def inferTypeDescWithFunction (fn : Option CgCallee) : ASTExpr → CgResult TypeDescriptor
  | .var name => cg.varTypeDescWithFunction fn name
  | .call name _ => cg.callTypeDescWithFunction name
  | .methodCall target name _ _ => do
      methodTypeDescWithFunction (← inferTypeDescWithFunction fn target) name
  | .binary op left right => do
      let (left, right) ← inferBoth (inferTypeDescWithFunction fn left)
        (inferTypeDescWithFunction fn right)
      binaryTypeDescWithFunction op left right
  | .unary op operand => do
      unaryTypeDescWithFunction op (← inferTypeDescWithFunction fn operand)
  | e => cg.inferTypeDesc e

end Cg

end BreadLang
