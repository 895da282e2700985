import BreadLang.Codegen.Semantic
import BreadLang.Library.Stateful

/-!
# Inferring the base type of an expression

`cg_infer_expr_type_simple`, the inference that knows no descriptors.  It reports an error and
goes on with the type `Nil`, and where it knows nothing better it guesses: a member is an
`Int`, the result of a method `Nil`.
-/

namespace BreadLang

/-- A computation that reports errors and goes on. -/
abbrev Reporting := Stateful (List CgError) CgFail

namespace Reporting

/-- `cg_error` or `cg_error_at`, and the type `Nil`. -/
def nilAfter (message : String) : Reporting VarType := do
  modify fun reported => reported ++ [⟨message, none, none⟩]
  return .typeNil

end Reporting

open Reporting

/-! ### Types of the constructs, given the types of their parts -/

/-- The binary case of `cg_infer_expr_type_simple`. -/
def binaryType (op : Char) (left right : VarType) : Reporting VarType :=
  if isArithmeticOp op then
    if op == '+' && left == .typeString && right == .typeString then
      return .typeString
    else if left != right then
      nilAfter "Type mismatch in binary operation"
    else if left != .typeInt && left != .typeDouble && left != .typeFloat then
      nilAfter "Arithmetic operations require numeric types"
    else if left == .typeFloat || left == .typeDouble then
      return .typeDouble
    else
      return .typeInt
  else if op == '<' || op == '>' || op == 'l' || op == 'g' || op == '=' || op == '!' then
    return .typeBool
  else if op == '&' || op == '|' then
    if left != .typeBool || right != .typeBool then
      nilAfter "Logical operations require Bool operands"
    else
      return .typeBool
  else
    return .typeNil

/-- The unary case of `cg_infer_expr_type_simple`. -/
def unaryType (op : Char) (operand : VarType) : Reporting VarType :=
  if op == '-' then
    if operand != .typeInt && operand != .typeDouble && operand != .typeFloat then
      nilAfter "Numeric negation requires numeric type"
    else if operand == .typeFloat || operand == .typeDouble then
      return .typeDouble
    else
      return .typeInt
  else if op == '!' then
    if operand != .typeBool then
      nilAfter "Logical negation requires Bool type"
    else
      return .typeBool
  else
    return .typeNil

/-- The base type of what an array or a dictionary holds, and `Nil` for another type. -/
def heldType : TypeDescriptor → VarType
  | .array element => element.baseType
  | .dict _ value => value.baseType
  | _ => .typeNil

/-- The end of the index case of `cg_infer_expr_type_simple`: what is left when the descriptor
of the target gives no type. -/
def guessIndexed (target : VarType) : Reporting VarType :=
  if target == .typeArray || target == .typeDict then
    return .typeInt
  else
    nilAfter "Cannot index this type (only arrays, dictionaries, and strings can be indexed)"

/-- The part of the index case of `cg_infer_expr_type_simple` that has a descriptor of the
target, or none. -/
def indexedType (target : VarType) : Option TypeDescriptor → Reporting VarType
  | some d => if heldType d != .typeNil then return heldType d else guessIndexed target
  | none => guessIndexed target

namespace Cg

variable (cg : Cg)

/-- The call case of `cg_infer_expr_type_simple`. -/
def callType (name : Ident) : Reporting VarType :=
  match cg.findClass name with
  | some _ => return .typeClass
  | none =>
      match cg.findFunction name with
      | some func =>
          match func.returnInfo with
          | some (type, _) => return type
          | none => throw .crashed
      | none =>
          match builtinLookup name with
          | some builtin => return builtin.returnType
          | none => return .typeNil

/-! ### Inference -/

/-- The descriptor of an index target that is not tagged: that of a variable. -/
def targetDesc : ASTExpr → Option TypeDescriptor
  | .var name => (cg.findVarInScope name).bind CgVar.typeDesc
  | _ => none

section Inference

variable (tag : ASTExpr → Option TypeDescriptor)

mutual

/-- `cg_infer_expr_type_simple`.  `tag` is the descriptor that the semantic analysis has stored
in a node. -/
def inferType : ASTExpr → Reporting VarType
  | .null | .nil | .self | .super | .array _ => return .typeNil
  | .int _ => return .typeInt
  | .double _ => return .typeDouble
  | .bool _ => return .typeBool
  | .string _ | .stringLiteral _ => return .typeString
  | .var name => return ((cg.findVarInScope name).map CgVar.type).getD .typeNil
  | .binary op left right => do
      let left ← inferType left
      let right ← inferType right
      binaryType op left right
  | .methodCall target _ _ _ => do
      let _ ← inferType target
      return .typeNil
  | .unary op operand => do
      unaryType op (← inferType operand)
  | .arrayLiteral [] => return .typeArray
  | .arrayLiteral (element :: elements) => do
      inferElementTypes (← inferType element) elements
  | .dict [] => return .typeDict
  | .dict ((key, value) :: entries) => do
      let key ← inferType key
      let value ← inferType value
      inferEntryTypes key value entries
  | .index target _ => do
      let type ← inferType target
      if type == .typeString then
        return .typeString
      else
        match tag target with
        | some d => indexedType type (some d)
        | none =>
            match ← inferFirstHeld target with
            | some held => return held
            | none => indexedType type (cg.targetDesc target)
  | .member _ _ _ => return .typeInt
  | .call name _ => cg.callType name
  | .structLiteral _ _ => return .typeStruct
  | .classLiteral _ _ => return .typeClass

/-- The loop over the elements of an array literal after the first. -/
def inferElementTypes (type : VarType) : List ASTExpr → Reporting VarType
  | [] => return .typeArray
  | element :: elements => do
      if (← inferType element) != type then
        nilAfter "Array literal elements must have same type"
      else
        inferElementTypes type elements

/-- The loop over the entries of a dictionary literal after the first. -/
def inferEntryTypes (key value : VarType) : List (ASTExpr × ASTExpr) → Reporting VarType
  | [] => return .typeDict
  | (k, v) :: entries => do
      let k ← inferType k
      let v ← inferType v
      if k != key || v != value then
        nilAfter "Dict literal entries must have consistent key and value types"
      else
        inferEntryTypes key value entries

/-- The type of the first element or value of a literal that is indexed. -/
def inferFirstHeld : ASTExpr → Reporting (Option VarType)
  | .arrayLiteral (element :: _) => some <$> inferType element
  | .dict ((_, value) :: _) => some <$> inferType value
  | _ => return none

end

end Inference

/-- The descriptor that the semantic analysis stores in a node of an expression that it
accepts. -/
def storedType (e : ASTExpr) : Option TypeDescriptor :=
  match cg.analyzeExpr e with
  | .ok type => type
  | .error _ => none

end Cg

end BreadLang
