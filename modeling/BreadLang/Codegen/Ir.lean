import BreadLang.Compiler.Ast

/-!
# The code the generator emits

An `LLVMValueRef` stands for the value that the instructions emitted for it
compute.  Here it is the tree of those instructions: the children of a node are
the values it uses, in the order in which they are emitted, and every node of a
tree is executed once.  Statements keep their structure; a basic block of the C
code is a list of statements.

What an operation of the runtime does is not said here.  `Op` collects the ones
that work on values alone; reading and writing variables, and calling compiled
code, have constructors of their own.
-/

namespace BreadLang

/-- `UnboxedType`, without `UNBOXED_NONE`. -/
inductive UnboxedType where
  | int
  | bool
  | double
  deriving DecidableEq

/-- `var_type_to_unboxed`; it returns `none` exactly where
`var_type_can_unbox` answers no. -/
def varTypeToUnboxed : VarType → Option UnboxedType
  | .typeInt => some .int
  | .typeBool => some .bool
  | .typeDouble => some .double
  | _ => none

/-- An LLVM function: the name it is added under, its number in the module and
the number of its parameters, which is all its type says. -/
structure LLVMFunction where
  name : Ident
  number : ℕ
  paramTotal : ℕ
  deriving DecidableEq

/-- The `alloca` of a variable: not set, a stack slot of the function being
built, or a parameter of it used as a slot. -/
inductive StackSlot where
  | unset
  | alloca (n : ℕ)
  | param (i : ℕ)
  deriving DecidableEq

/-- The instructions on unboxed values. -/
inductive LLVMOp where
  | add | sub | mul | sdiv | srem
  | icmpEq | icmpSlt | icmpSgt
  | fadd | fsub | fmul | fdiv
  | fcmpOeq | fcmpOlt | fcmpOgt
  | fneg | not
  deriving DecidableEq

/-- The operations on values: constants, the instructions on unboxed values and
the runtime functions that touch neither variables nor compiled code. -/
inductive Op where
  | constInt (n : BreadInt)
  | constReal (d : DoubleBits)
  | constBool (b : Bool)
  | llvm (op : LLVMOp)
  | setNil
  | setInt (n : BreadInt)
  | setBool (b : Bool)
  | setDouble (d : DoubleBits)
  | setString (s : BreadString)
  | box (type : UnboxedType)
  | unbox (type : UnboxedType)
  | isTruthy
  | binaryOp (op : Char)
  | unaryNot
  | indexOp
  | memberOp (member : Ident) (isOptionalChain : Bool)
  | builtinCall (name : Ident)
  | rangeSimple
  | rangeCreate
  | arrayLiteral
  | dictLiteral
  | dictKeys
  | structLiteral (name : Ident) (fieldNames : List Ident)
  | classLiteral (name : Ident) (fieldNames : List Ident)

/-- The emitted code of an expression. -/
inductive Code where
  | op (op : Op) (args : List Code)
  /-- `LLVMBuildLoad2` from an unboxed slot. -/
  | load (type : UnboxedType) (slot : StackSlot)
  /-- `cg_clone_value` of a boxed slot. -/
  | cloneSlot (slot : StackSlot)
  /-- A boxed slot used in place. -/
  | slot (slot : StackSlot)
  /-- The `self` parameter of a method, in place or cloned. -/
  | selfParam
  | cloneSelf
  /-- `bread_var_load`. -/
  | varLoad (name : Ident)
  /-- A call of a compiled function. -/
  | callFunction (fn : LLVMFunction) (args : List Code)
  /-- A direct call of a compiled method. -/
  | callMethod (fn : LLVMFunction) (self : Code) (args : List Code)
  /-- `bread_method_call_op`. -/
  | methodCallOp (target : Code) (name : Ident) (args : List Code) (isOptionalChain : Bool)
  /-- `bread_super_init_*`. -/
  | superInit (parentName : Ident) (args : List Code)
  /-- `bread_class_create_instance`, and the call of `init` when the class has a
  constructor. -/
  | newInstance (className : Ident) (parentName : Option Ident)
      (fieldNames methodNames : List Ident) (initArgs : Option (List Code))
  /-- Code whose value is not used, and then code whose value is. -/
  | seq (first second : Code)

/-- `CgValue`: the value of an expression, boxed or not.  Only a boxed value can
be missing. -/
inductive CgValue where
  | boxed (value : Option Code)
  | unboxed (type : UnboxedType) (value : Code)

/-- `cg_box_value`. -/
def boxValue : CgValue → Option Code
  | .boxed value => value
  | .unboxed type value => some (.op (.box type) [value])

/-- The arguments of `bread_var_decl_if_missing` besides the value. -/
structure VarMirror where
  name : Ident
  type : VarType
  isConst : Bool

/-- The emitted code of a statement.  A block that has a scope pushes a runtime scope
and pops it again. -/
inductive CodeStmt where
  | eval (value : Code)
  | print (value : Code)
  /-- A store into a boxed slot, and the variable that mirrors it. -/
  | storeSlot (slot : StackSlot) (value : Code) (mirror : Option VarMirror)
  /-- A store into an unboxed slot of a value that is unboxed already or has to
  be unboxed first, and the variable that mirrors it. -/
  | storeUnboxed (slot : StackSlot) (type : UnboxedType) (value : CgValue)
      (mirror : Option VarMirror)
  /-- `bread_var_decl`. -/
  | varDecl (name : Ident) (type : VarType) (isConst : Bool) (value : Code)
  /-- `bread_var_assign`. -/
  | varAssign (name : Ident) (value : Code)
  /-- `bread_index_set_op`. -/
  | indexSet (index target value : Code)
  /-- A compound assignment to an element: the target and the index are
  evaluated once. -/
  | indexUpdate (index target : Code) (op : Char) (value : Code)
  /-- `bread_member_set_op`. -/
  | memberSet (target : Code) (member : Ident) (value : Code)
  | memberUpdate (target : Code) (member : Ident) (op : Char) (value : Code)
  | ifThenElse (condition : Code) (hasScope : Bool) (thenCode : List CodeStmt)
      (elseCode : Option (List CodeStmt))
  | whileLoop (condition : Code) (hasScope : Bool) (body : List CodeStmt)
  | forRange (name : Ident) (start stop step : ℤ) (hasScope : Bool) (body : List CodeStmt)
  | forIn (name : Ident) (iterable : Code) (isDict : Bool) (hasScope : Bool)
      (body : List CodeStmt)
  | breakLoop (popsScope : Bool)
  | continueLoop (popsScope : Bool)
  | ret (value : Code)
  /-- Where the builder of a method body gave up. -/
  | truncated

/-- The body of a compiled function: its parameters, in order, with the slots
and mirrors that its prologue gives them, and its code. -/
structure CodeBody where
  fn : LLVMFunction
  params : List (Ident × StackSlot)
  mirrorsParams : Bool
  code : List CodeStmt

end BreadLang
