import BreadLang.Codegen.Infer

/-!
# Semantic analysis

`cg_semantic_analyze` and what it calls.  The first pass declares every function
of the program; the second analyses the statements in order, and declares
structs and classes where it meets them.  The bodies of methods and constructors
are never looked at.

The analysis writes to the tree: it resolves the type of a variable that is
declared with the name of a class, and it stores the type of the expression of
a `return`.  So an analysed statement is returned.  An analysis that fails
leaves nothing behind that is used again.
-/

namespace BreadLang

/-- The outcome of a function of the analysis. -/
abbrev Analyze := StateT Cg CgResult

namespace Cg

/-! ### Expressions -/

section Expressions

variable (cg : Cg)

/-- The checks of the number of arguments in `cg_analyze_expr`. -/
def checkCall (name : Ident) (argCount : ℕ) : CgResult Unit :=
  if name == "range".toList then
    if argCount < 1 || argCount > 3 then
      cgError "Built-in function 'range' expects 1 to 3 arguments" (some name)
    else
      .ok ()
  else
    match builtinLookup name with
    | some builtin =>
        if builtin.paramCount != argCount then
          cgError ("Built-in function expects " ++ toString builtin.paramCount ++
            " argument(s), got " ++ toString argCount) (some name)
        else
          .ok ()
    | none =>
        match cg.findFunction name with
        | some func =>
            if argCount < func.requiredParamCount || argCount > func.params.length then
              cgError ("Function expects " ++ toString func.requiredParamCount ++ " to " ++
                toString func.params.length ++ " argument(s), got " ++ toString argCount)
                (some name)
            else
              .ok ()
        | none =>
            match cg.findClass name with
            | none => cgError "Undefined function or class" (some name)
            | some c =>
                match c.constructor with
                | none => cgError "Class has no constructor" (some name)
                | some init =>
                    if argCount < init.requiredParamCount || argCount > init.params.length then
                      cgError ("Constructor expects " ++ toString init.requiredParamCount ++
                        " to " ++ toString init.params.length ++ " argument(s), got " ++
                        toString argCount) (some name)
                    else
                      .ok ()

/-- The end of `cg_analyze_expr`, which infers the type of the expression and
stores it in the node. -/
def inferTag (e : ASTExpr) : CgResult TypeDescriptor :=
  match cg.inferTypeDesc e with
  | .ok d => .ok d
  | .error (.failed none) =>
      cgError ("Could not infer expression type (expr kind " ++ toString e.kind ++ ")") none
  | .error stop => .error stop

mutual

/-- `cg_analyze_expr`, which returns the type that it stores; there is none to
store when the pointer is null. -/
def analyzeExpr : ASTExpr → CgResult (Option TypeDescriptor)
  | .null => .ok none
  | e@(.var name) => do
      if (cg.findVarInScope name).isNone then
        cgError "Undefined variable" (some name)
      some <$> cg.inferTag e
  | e@(.call name args) => do
      cg.checkCall name args.length
      analyzeExprs args
      some <$> cg.inferTag e
  | e@(.binary _ left right) => do
      let _ ← analyzeExpr left
      let _ ← analyzeExpr right
      some <$> cg.inferTag e
  | e@(.unary _ operand) => do
      let _ ← analyzeExpr operand
      some <$> cg.inferTag e
  | e@(.index target index) => do
      let _ ← analyzeExpr target
      let _ ← analyzeExpr index
      some <$> cg.inferTag e
  | e@(.member target _ _) => do
      let _ ← analyzeExpr target
      some <$> cg.inferTag e
  | e@(.methodCall target _ args _) => do
      let _ ← analyzeExpr target
      analyzeExprs args
      some <$> cg.inferTag e
  | e@(.arrayLiteral elements) => do
      analyzeExprs elements
      some <$> cg.inferTag e
  | e@(.dict entries) => do
      analyzeEntries entries
      some <$> cg.inferTag e
  | e@(.structLiteral _ fields) => do
      analyzeFields fields
      some <$> cg.inferTag e
  | e@(.classLiteral _ fields) => do
      analyzeFields fields
      some <$> cg.inferTag e
  | e => some <$> cg.inferTag e

/-- The loop over the arguments of a call or the elements of an array. -/
def analyzeExprs : List ASTExpr → CgResult Unit
  | [] => .ok ()
  | e :: es => do
      let _ ← analyzeExpr e
      analyzeExprs es

/-- The loop over the entries of a dictionary literal. -/
def analyzeEntries : List (ASTExpr × ASTExpr) → CgResult Unit
  | [] => .ok ()
  | (key, value) :: entries => do
      let _ ← analyzeExpr key
      let _ ← analyzeExpr value
      analyzeEntries entries

/-- The loop over the field values of a struct or class literal. -/
def analyzeFields : List (Ident × ASTExpr) → CgResult Unit
  | [] => .ok ()
  | (_, value) :: fields => do
      let _ ← analyzeExpr value
      analyzeFields fields

end

/-- `cg_check_condition_type_desc_simple`. -/
def checkConditionType (condition : ASTExpr) : CgResult Unit := do
  let type ← cg.inferTypeDesc condition
  if type.baseType != .typeBool then
    cgError "Condition must be Bool type" none

end Expressions

/-! ### Scopes and declarations -/

/-- `cg_enter_scope`. -/
def enterScope (cg : Cg) : Cg :=
  { cg with scopeDepth := cg.scopeDepth + 1 }

/-- `cg_leave_scope`: the variables of the scope go away. -/
def leaveScope (cg : Cg) : Cg :=
  { cg with
    globalVars := cg.globalVars.filter fun v => v.isInitialized < cg.scopeDepth
    scopeDepth := cg.scopeDepth - 1 }

/-- `cg_declare_var`. -/
def declareVar (cg : Cg) (name : Ident) (typeDesc : Option TypeDescriptor) (isConst : Bool) :
    CgResult Cg :=
  if cg.globalVars.any fun v => v.isInitialized == cg.scopeDepth && v.name == name then
    cgError "Variable already declared" (some name)
  else
    match typeDesc with
    | none => failed
    | some d =>
        .ok { cg with
          globalVars := {
            name := name
            alloca := .unset
            type := d.baseType
            typeDesc := some d
            unboxedType := none
            isConst := isConst
            isInitialized := cg.scopeDepth } :: cg.globalVars }

/-- `cg_declare_function_from_ast`. -/
def declareFunctionFromAst (cg : Cg) (decl : FuncDecl) : CgResult Cg :=
  if cg.functions.any fun f => f.name == decl.name then
    cgError "Function already declared" (some decl.name)
  else
    .ok { cg with
      functions := {
        name := decl.name
        fn := none
        body := none
        params := decl.params
        requiredParamCount := decl.requiredParamCount
        returnInfo := some (decl.returnType, decl.returnTypeDesc) } :: cg.functions }

/-- `cg_declare_struct_from_ast`. -/
def declareStructFromAst (cg : Cg) (name : Ident) (fields : List (Ident × TypeDescriptor)) :
    CgResult Cg :=
  if (cg.findStruct name).isSome then
    cgError "Struct already declared" (some name)
  else
    .ok { cg with structs := ⟨name, fields⟩ :: cg.structs }

/-- `cg_declare_class_from_ast`. -/
def declareClassFromAst (cg : Cg) (name : Ident) (parentName : Option Ident)
    (fields : List (Ident × TypeDescriptor)) (methods : List FuncDecl)
    (constructor : Option FuncDecl) : CgResult Cg :=
  if (cg.findClass name).isSome then
    cgError "Class already declared" (some name)
  else
    .ok { cg with
      classes := {
        name := name
        parentName := parentName
        fields := fields
        methods := methods
        constructor := constructor
        methodFunctions := methods.map fun _ => none
        constructorFunction := none } :: cg.classes }

/-! ### Returns -/

mutual

/-- `cg_stmt_guarantees_return`. -/
def stmtGuaranteesReturn : ASTStmt → Bool
  | .return _ _ => true
  | .ifStmt _ thenBranch elseBranch =>
      elseBranch.isSome && bodyGuaranteesReturn thenBranch && bodyGuaranteesReturn elseBranch
  | _ => false

/-- `cg_stmt_list_guarantees_return`. -/
def bodyGuaranteesReturn : Option (List ASTStmt) → Bool
  | none => false
  | some stmts => stmtsGuaranteeReturn stmts

def stmtsGuaranteeReturn : List ASTStmt → Bool
  | [] => false
  | s :: stmts => stmtGuaranteesReturn s || stmtsGuaranteeReturn stmts

end

/-- `cg_check_return_stmt`. -/
def checkReturnStmt (decl : FuncDecl) (expr : ASTExpr) (tag : Option TypeDescriptor) :
    CgResult Unit :=
  if expr.isNull then
    if decl.returnType != .typeNil then cgError "Missing return value" none else .ok ()
  else
    match tag, decl.returnTypeDesc with
    | some type, some expected =>
        if type.compatible expected then .ok ()
        else cgTypeError "Return type mismatch" expected type
    | _, _ => .ok ()

mutual

/-- `cg_check_returns_in_stmt`. -/
def checkReturnsInStmt (decl : FuncDecl) : ASTStmt → CgResult Unit
  | .return expr tag => checkReturnStmt decl expr tag
  | .ifStmt _ thenBranch elseBranch => do
      checkReturnsInBody decl thenBranch
      checkReturnsInBody decl elseBranch
  | .whileStmt _ body => checkReturnsInBody decl body
  | .forStmt _ _ body => checkReturnsInBody decl body
  | .forIn _ _ body => checkReturnsInBody decl body
  | _ => .ok ()

def checkReturnsInBody (decl : FuncDecl) : Option (List ASTStmt) → CgResult Unit
  | none => .ok ()
  | some stmts => checkReturnsInStmts decl stmts

def checkReturnsInStmts (decl : FuncDecl) : List ASTStmt → CgResult Unit
  | [] => .ok ()
  | s :: stmts => do
      checkReturnsInStmt decl s
      checkReturnsInStmts decl stmts

end

end Cg

/-! ### Statements -/

namespace Analyze

/-- An analysis that only reads the state. -/
def reads {α : Type} (f : Cg → CgResult α) : Analyze α := do
  f (← get)

/-- An analysis that returns the new state. -/
def updates (f : Cg → CgResult Cg) : Analyze Unit := do
  set (← (f (← get) : CgResult Cg))

/-- The type of a declared variable, once a name that the parser took for a
struct is known to be a class. -/
def resolveClass (cg : Cg) : TypeDescriptor → TypeDescriptor
  | d@(.struct name _) =>
      match cg.findClass name with
      | some c => c.typeDesc
      | none => d
  | d => d

/-- The variable declaration case of `cg_analyze_stmt`. -/
def analyzeVarDecl (name : Ident) (type : VarType) (typeDesc : Option TypeDescriptor)
    (init : ASTExpr) (isConst : Bool) : Analyze ASTStmt := do
  let initType ← reads fun cg => cg.analyzeExpr init
  match typeDesc with
  | none => reads fun _ => cgError "Type must be explicitly defined" (some name)
  | some declared =>
      let declared := resolveClass (← get) declared
      updates fun cg => cg.declareVar name (some declared) isConst
      match initType with
      | some initType =>
          if !initType.compatible declared then
            reads fun _ =>
              cgTypeError "Type mismatch in variable initialization" declared initType
      | none => pure ()
      return .varDecl name type (some declared) init isConst

/-- The check of an assigned value against the type of the variable. -/
def checkAssignedType (value : ASTExpr) (var : CgVar) : Analyze Unit := do
  let valueType ← reads fun cg => cg.analyzeExpr value
  match valueType, var.typeDesc with
  | some valueType, some varType =>
      if !valueType.compatible varType then
        reads fun _ => cgTypeError "Type mismatch in assignment" varType valueType
  | _, _ => pure ()

/-- The assignment case of `cg_analyze_stmt`. -/
def analyzeVarAssign (name : Ident) (value : ASTExpr) : Analyze Unit := do
  match (← get).findVarInScope name with
  | none => reads fun _ => cgError "Undefined variable" (some name)
  | some var =>
      if var.isConst then
        reads fun _ => cgError "Cannot assign to const variable" (some name)
      checkAssignedType value var

/-- The type of the variable of a `for`-`in` loop over an iterable. -/
def elementTypeDesc : TypeDescriptor → Option TypeDescriptor
  | .array element => some element
  | .dict key _ => some key
  | _ => none

/-- The part of the `for`-`in` case of `cg_analyze_stmt` that declares the loop
variable. -/
def declareLoopVar (name : Ident) (iterable : ASTExpr) : Analyze Unit := do
  let iterableType ← reads fun cg =>
    match cg.inferTypeDesc iterable with
    | .ok d => .ok (some d)
    | .error (.failed _) => .ok none
    | .error stop => .error stop
  match iterableType.bind elementTypeDesc with
  | none =>
      reads fun _ => cgError ("Cannot infer element type for 'for-in' (expected Array or " ++
        "Dict with known element/key type)") none
  | some element => updates fun cg => cg.declareVar name (some element) false

mutual

/-- `cg_analyze_stmt`. -/
def analyzeStmt : ASTStmt → Analyze ASTStmt
  | .varDecl name type typeDesc init isConst =>
      analyzeVarDecl name type typeDesc init isConst
  | .varAssign name value op => do
      analyzeVarAssign name value
      return .varAssign name value op
  | .indexAssign target index value op => do
      let _ ← reads fun cg => cg.analyzeExpr target
      let _ ← reads fun cg => cg.analyzeExpr index
      let _ ← reads fun cg => cg.analyzeExpr value
      return .indexAssign target index value op
  | .memberAssign target member value op => do
      let _ ← reads fun cg => cg.analyzeExpr target
      let _ ← reads fun cg => cg.analyzeExpr value
      return .memberAssign target member value op
  | .print e => do
      let _ ← reads fun cg => cg.analyzeExpr e
      return .print e
  | .expr e => do
      let _ ← reads fun cg => cg.analyzeExpr e
      return .expr e
  | .ifStmt condition thenBranch elseBranch => do
      let _ ← reads fun cg => cg.analyzeExpr condition
      reads fun cg => cg.checkConditionType condition
      modify Cg.enterScope
      let thenBranch ← analyzeBody thenBranch
      modify Cg.leaveScope
      match elseBranch with
      | none => return .ifStmt condition thenBranch none
      | some stmts =>
          modify Cg.enterScope
          let stmts ← analyzeStmts stmts
          modify Cg.leaveScope
          return .ifStmt condition thenBranch (some stmts)
  | .whileStmt condition body => do
      let _ ← reads fun cg => cg.analyzeExpr condition
      reads fun cg => cg.checkConditionType condition
      modify Cg.enterScope
      let body ← analyzeBody body
      modify Cg.leaveScope
      return .whileStmt condition body
  | .forStmt name rangeExpr body => do
      let _ ← reads fun cg => cg.analyzeExpr rangeExpr
      modify Cg.enterScope
      updates fun cg => cg.declareVar name (some .int) false
      let body ← analyzeBody body
      modify Cg.leaveScope
      return .forStmt name rangeExpr body
  | .forIn name iterable body => do
      let _ ← reads fun cg => cg.analyzeExpr iterable
      modify Cg.enterScope
      declareLoopVar name iterable
      let body ← analyzeBody body
      modify Cg.leaveScope
      return .forIn name iterable body
  | .funcDecl decl =>
      reads fun _ =>
        cgError "Internal error: function declaration in second pass" (some decl.name)
  | .structDecl name fields => do
      updates fun cg => cg.declareStructFromAst name fields
      return .structDecl name fields
  | .classDecl name parentName fields methods constructor => do
      updates fun cg => cg.declareClassFromAst name parentName fields methods constructor
      return .classDecl name parentName fields methods constructor
  | .return e _ => do
      let tag ← reads fun cg => cg.analyzeExpr e
      return .return e tag
  | s => return s

/-- The loop over the statements of a block, which may be missing. -/
def analyzeBody : Option (List ASTStmt) → Analyze (Option (List ASTStmt))
  | none => return none
  | some stmts => return some (← analyzeStmts stmts)

def analyzeStmts : List ASTStmt → Analyze (List ASTStmt)
  | [] => return []
  | s :: stmts => do
      let s ← analyzeStmt s
      return s :: (← analyzeStmts stmts)

end

/-! ### Programs -/

/-- The first pass of `cg_semantic_analyze`. -/
def declareFunctions : ASTStmtList → Analyze Unit
  | [] => return
  | .funcDecl decl :: program => do
      updates fun cg => cg.declareFunctionFromAst decl
      declareFunctions program
  | _ :: program => declareFunctions program

/-- The loop that declares the parameters of a function as variables. -/
def declareParams : List ASTParam → Analyze Unit
  | [] => return
  | p :: params => do
      updates fun cg => cg.declareVar p.name p.typeDesc false
      declareParams params

/-- The loop over the statements of a function body. -/
def analyzeFunctionStmts (decl : FuncDecl) : List ASTStmt → Analyze (List ASTStmt)
  | [] => return []
  | s :: stmts => do
      let s ← analyzeStmt s
      reads fun _ => Cg.checkReturnsInStmt decl s
      return s :: (← analyzeFunctionStmts decl stmts)

/-- The check that a function returns a value on every path, unless it returns
`Nil` or an optional. -/
def checkGuaranteedReturn (decl : FuncDecl) (body : Option (List ASTStmt)) :
    CgResult Unit :=
  if decl.returnType != .typeNil && !Cg.bodyGuaranteesReturn body then
    match decl.returnTypeDesc with
    | some (.optional _) => .ok ()
    | _ => cgError "Function must return a value" (some decl.name)
  else
    .ok ()

/-- The second pass of `cg_semantic_analyze` on a function. -/
def analyzeFunction (decl : FuncDecl) : Analyze FuncDecl := do
  modify Cg.enterScope
  declareParams decl.params
  let stmts ← analyzeFunctionStmts decl (decl.body.getD [])
  let body := decl.body.map fun _ => stmts
  reads fun _ => checkGuaranteedReturn decl body
  modify Cg.leaveScope
  return { decl with body := body }

/-- The second pass of `cg_semantic_analyze`. -/
def analyzeProgram : ASTStmtList → Analyze ASTStmtList
  | [] => return []
  | .funcDecl decl :: program => do
      let decl ← analyzeFunction decl
      return .funcDecl decl :: (← analyzeProgram program)
  | s :: program => do
      let s ← analyzeStmt s
      return s :: (← analyzeProgram program)

end Analyze

/-- `cg_semantic_analyze`.  It returns the analysed program and the state; an
error that is reported always ends it. -/
def semanticAnalyze (cg : Cg) (program : ASTStmtList) : CgResult (ASTStmtList × Cg) :=
  (do Analyze.declareFunctions program
      Analyze.analyzeProgram program).run { cg with scopeDepth := 0, globalVars := [] }

end BreadLang
