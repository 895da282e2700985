import BreadLang.Core.TypeDescriptor

/-!
# The abstract syntax tree

The trees that the parser builds and the code generator walks.  An `ASTExpr*`
may be `NULL`, and the C code tests for it in some places and not in others, so
the null pointer is one of the expressions here.  A statement list that may be
missing is an `Option`.

Source locations, and the slots in which the optional analyses keep their
results, are left out.
-/

namespace BreadLang

/-- `ASTExpr*`.  The operator of a binary or unary node is the character the
parser encodes it with: `<=` is `l`, `>=` is `g`, `==` is `=`, `!=` is `!`,
`&&` is `&` and `||` is `|`. -/
inductive ASTExpr where
  | null
  | nil
  | bool (val : Bool)
  | int (val : BreadInt)
  | double (val : DoubleBits)
  | string (val : BreadString)
  | var (name : Ident)
  | self
  | super
  | binary (op : Char) (left right : ASTExpr)
  | unary (op : Char) (operand : ASTExpr)
  | call (name : Ident) (args : List ASTExpr)
  | array (items : List ASTExpr)
  | dict (entries : List (ASTExpr × ASTExpr))
  | index (target index : ASTExpr)
  | member (target : ASTExpr) (member : Ident) (isOptionalChain : Bool)
  | methodCall (target : ASTExpr) (name : Ident) (args : List ASTExpr)
      (isOptionalChain : Bool)
  | stringLiteral (value : BreadString)
  | arrayLiteral (elements : List ASTExpr)
  | structLiteral (structName : Ident) (fields : List (Ident × ASTExpr))
  | classLiteral (className : Ident) (fields : List (Ident × ASTExpr))

/-- Whether the pointer is `NULL`. -/
def ASTExpr.isNull : ASTExpr → Bool
  | .null => true
  | _ => false

/-- The position of a node's kind in `ASTExprKind`. -/
def ASTExpr.kind : ASTExpr → ℕ
  | .null | .nil => 0
  | .bool _ => 1
  | .int _ => 2
  | .double _ => 3
  | .string _ => 4
  | .var _ => 5
  | .self => 6
  | .super => 7
  | .binary _ _ _ => 8
  | .unary _ _ => 9
  | .call _ _ => 10
  | .array _ => 11
  | .dict _ => 12
  | .index _ _ => 13
  | .member _ _ _ => 14
  | .methodCall _ _ _ _ => 15
  | .stringLiteral _ => 16
  | .arrayLiteral _ => 17
  | .structLiteral _ _ => 18
  | .classLiteral _ _ => 19

/-- A parameter of a function: one index of the three arrays of its node.  The
default is `null` where the parameter has none. -/
structure ASTParam where
  name : Ident
  typeDesc : Option TypeDescriptor
  default : ASTExpr

/-- `ASTStmtFuncDecl`, over the type of statements. -/
structure ASTFuncDecl (σ : Type) where
  name : Ident
  params : List ASTParam
  returnType : VarType
  returnTypeDesc : Option TypeDescriptor
  body : Option (List σ)

/-- `ASTStmt`.  The operator of an assignment is `none` for `=` and the
character of the operator for a compound assignment.  A `return` keeps the type
that the analysis stores in its expression. -/
inductive ASTStmt where
  | varDecl (name : Ident) (type : VarType) (typeDesc : Option TypeDescriptor)
      (init : ASTExpr) (isConst : Bool)
  | varAssign (name : Ident) (value : ASTExpr) (op : Option Char)
  | indexAssign (target index value : ASTExpr) (op : Option Char)
  | memberAssign (target : ASTExpr) (member : Ident) (value : ASTExpr) (op : Option Char)
  | print (expr : ASTExpr)
  | expr (expr : ASTExpr)
  | ifStmt (condition : ASTExpr) (thenBranch elseBranch : Option (List ASTStmt))
  | whileStmt (condition : ASTExpr) (body : Option (List ASTStmt))
  | forStmt (name : Ident) (rangeExpr : ASTExpr) (body : Option (List ASTStmt))
  | forIn (name : Ident) (iterable : ASTExpr) (body : Option (List ASTStmt))
  | break
  | continue
  | funcDecl (decl : ASTFuncDecl ASTStmt)
  | structDecl (name : Ident) (fields : List (Ident × TypeDescriptor))
  | classDecl (name : Ident) (parentName : Option Ident)
      (fields : List (Ident × TypeDescriptor)) (methods : List (ASTFuncDecl ASTStmt))
      (constructor : Option (ASTFuncDecl ASTStmt))
  | return (expr : ASTExpr) (tag : Option TypeDescriptor)
  | importStmt (modulePath : Ident) (moduleAlias : Option Ident) (isSelective : Bool)
      (symbols : List (Ident × Option Ident))
  | exportStmt (isDefault : Bool) (symbols : List (Ident × Option Ident))

/-- A function declaration of the program. -/
abbrev FuncDecl := ASTFuncDecl ASTStmt

/-- `ASTStmtList`. -/
abbrev ASTStmtList := List ASTStmt

namespace ASTFuncDecl

variable {σ : Type}

/-- The number of parameters before the first one with a default, as
`calculate_required_param_count` and `cg_declare_function_from_ast` count it. -/
def requiredParamCount (decl : ASTFuncDecl σ) : ℕ :=
  (decl.params.takeWhile fun p => p.default.isNull).length

end ASTFuncDecl

end BreadLang
