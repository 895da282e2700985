import BreadLang.Codegen.Expr

/-!
# Building statements

`cg_build_stmt` and the functions it dispatches to.  Inside a function, a
declaration makes a slot and adds it to the flat scope of the function, where it
stays until the end of the body; a block opens no scope.  At top level there are
no slots, and every block pushes a scope at run time.

A class declaration builds the bodies of its constructor and methods on the
spot, and the result of building such a body is not tested.  The bodies of
functions are built later.
-/

namespace BreadLang

open Lower

/-! ### Slots and scopes -/

/-- `LLVMBuildAlloca`. -/
def newSlot : Lower StackSlot :=
  modifyGet fun cg => (.alloca cg.nextSlot, { cg with nextSlot := cg.nextSlot + 1 })

/-- The variable that `cg_scope_add_var` makes. -/
def CgVar.new (name : Ident) (slot : StackSlot) : CgVar where
  name := name
  alloca := slot
  type := .typeNil
  typeDesc := none
  unboxedType := none
  isConst := false
  isInitialized := 0

/-- `cg_scope_add_var` on the scope of the function being built. -/
def scopeAddVar (var : CgVar) : Lower Unit :=
  modify fun cg => { cg with scope := var :: cg.scope }

/-- The local variable that a name denotes. -/
def localVar (cg : Cg) (fn : Option CgCallee) (name : Ident) : Option CgVar :=
  fn.bind fun _ => cg.scopeFindVar name

/-- `LLVMAddFunction`. -/
def addFunction (name : Ident) (paramTotal : ℕ) : Lower LLVMFunction :=
  modifyGet fun cg =>
    (⟨name, cg.nextFunction, paramTotal⟩, { cg with nextFunction := cg.nextFunction + 1 })

/-! ### Lists of statements -/

/-- `cg_build_stmt_list`. -/
def buildStmts (b : Builder) (fn : Option CgCallee) (stmts : List ASTStmt) :
    Lower (List CodeStmt) := do
  return (← stmts.mapM (b.stmt fn)).flatten

/-- `cg_build_stmt_list` on a list that may be missing. -/
def buildBody (b : Builder) (fn : Option CgCallee) (body : Option (List ASTStmt)) :
    Lower (List CodeStmt) :=
  match body with
  | none => return []
  | some stmts => buildStmts b fn stmts

/-- `cg_build_stmt_list` when its result is not tested: what has been built
stays. -/
def buildStmtsUntested (b : Builder) (fn : Option CgCallee) :
    List ASTStmt → Lower (List CodeStmt)
  | [] => return []
  | s :: stmts => do
      match ← testNull (b.stmt fn s) with
      | some code => return code ++ (← buildStmtsUntested b fn stmts)
      | none => return [.truncated]

/-! ### Declarations and assignments of variables -/

/-- `init_var_metadata`. -/
def declaredVar (name : Ident) (slot : StackSlot) (type : VarType)
    (typeDesc : Option TypeDescriptor) (isConst : Bool)
    (unboxedType : Option UnboxedType) : CgVar where
  name := name
  alloca := slot
  type := type
  typeDesc := typeDesc <|> TypeDescriptor.createPrimitive type
  unboxedType := unboxedType
  isConst := isConst
  isInitialized := 1

/-- `build_var_decl_stmt`, with `handle_unboxed_var_decl` and
`handle_boxed_var_decl`. -/
def buildVarDecl (b : Builder) (fn : Option CgCallee) (name : Ident) (type : VarType)
    (typeDesc : Option TypeDescriptor) (init : ASTExpr) (isConst : Bool) :
    Lower (List CodeStmt) := do
  match fn with
  | none => return [.varDecl name type isConst (← b.expr fn init)]
  | some _ =>
      match if canUnboxExpr init then varTypeToUnboxed type else none with
      | some unboxedType =>
          let value ← b.exprUnboxed fn init
          let slot ← newSlot
          scopeAddVar (declaredVar name slot type typeDesc isConst (some unboxedType))
          return [.storeUnboxed slot unboxedType value (some ⟨name, type, isConst⟩)]
      | none =>
          let value ← b.expr fn init
          let slot ← newSlot
          scopeAddVar (declaredVar name slot type typeDesc isConst none)
          return [.storeSlot slot value (some ⟨name, type, isConst⟩)]

/-- The instruction on two unboxed operands of a compound assignment: an
arithmetic one. -/
def compoundInstruction (op : Char) (s t : UnboxedType) : Option LLVMOp :=
  match binaryInstruction op s t with
  | some (.bool, _) => none
  | some (_, instruction) => some instruction
  | none => none

/-- `handle_unboxed_var_compound_assign`. -/
def buildUnboxedCompoundAssign (b : Builder) (fn : Option CgCallee) (slot : StackSlot)
    (type : UnboxedType) (value : ASTExpr) (op : Char) : Lower (List CodeStmt) := do
  let current := Code.load type slot
  let rhs ← b.exprUnboxed fn value
  let boxedResult : Lower (List CodeStmt) := do
    let boxedRhs ← deref (boxValue rhs)
    let result := Code.op (.binaryOp op) [.op (.box type) [current], boxedRhs]
    return [.storeUnboxed slot type (.boxed (some result)) none]
  match rhs with
  | .unboxed rhsType v =>
      match compoundInstruction op type rhsType with
      | some instruction =>
          return [.storeUnboxed slot type (.unboxed type (.op (.llvm instruction) [current, v]))
            none]
      | none => boxedResult
  | .boxed _ => boxedResult

/-- `handle_unboxed_var_assign`. -/
def buildUnboxedAssign (b : Builder) (fn : Option CgCallee) (slot : StackSlot)
    (type : UnboxedType) (value : ASTExpr) : Lower (List CodeStmt) := do
  match ← b.exprUnboxed fn value with
  | .boxed none => crashed
  | v => return [.storeUnboxed slot type v none]

/-- An assignment is recorded, with the scope and the classes as they are. -/
def recordAssign (fn : Option CgCallee) (name : Ident) (op : Option Char)
    (target : Location) : Lower Unit := do
  let cg ← get
  record (.variableAssigned fn cg.scope cg.classes name op target)

/-- `handle_boxed_var_assign`: in a function, a name that is not in its scope is
added to it. -/
def buildBoxedAssign (b : Builder) (fn : Option CgCallee) (name : Ident)
    (value : ASTExpr) : Lower (List CodeStmt) := do
  let v ← b.expr fn value
  match fn with
  | none =>
      recordAssign fn name none (.global name)
      return [.varAssign name v]
  | some _ =>
      match localVar (← get) fn name with
      | some var =>
          recordAssign fn name none (.slot var.alloca)
          return [.storeSlot var.alloca v none]
      | none =>
          let slot ← newSlot
          recordAssign fn name none (.slot slot)
          scopeAddVar (.new name slot)
          return [.storeSlot slot v none]

/-- `handle_boxed_var_compound_assign`. -/
def buildBoxedCompoundAssign (b : Builder) (fn : Option CgCallee) (name : Ident)
    (value : ASTExpr) (op : Char) : Lower (List CodeStmt) := do
  let lhs ← b.expr fn (.var name)
  let rhs ← b.expr fn value
  let result := Code.op (.binaryOp op) [lhs, rhs]
  match localVar (← get) fn name with
  | some var =>
      recordAssign fn name (some op) (.slot var.alloca)
      return [.storeSlot var.alloca result none]
  | none =>
      recordAssign fn name (some op) (.global name)
      return [.varAssign name result]

/-- `build_var_assign_stmt`. -/
def buildVarAssign (b : Builder) (fn : Option CgCallee) (name : Ident) (value : ASTExpr)
    (op : Option Char) : Lower (List CodeStmt) := do
  match unboxedSlot (← get) fn name, op with
  | some (type, slot), some op =>
      recordAssign fn name (some op) (.slot slot)
      buildUnboxedCompoundAssign b fn slot type value op
  | some (type, slot), none =>
      recordAssign fn name none (.slot slot)
      buildUnboxedAssign b fn slot type value
  | none, some op => buildBoxedCompoundAssign b fn name value op
  | none, none => buildBoxedAssign b fn name value

/-- The target of `build_index_assign_stmt`: a local variable is used in
place. -/
def buildIndexTarget (b : Builder) (fn : Option CgCallee) (target : ASTExpr) : Lower Code := do
  match target with
  | .var name =>
      match localVar (← get) fn name with
      | some var => return .slot var.alloca
      | none => b.expr fn target
  | _ => b.expr fn target

/-- `build_index_assign_stmt`. -/
def buildIndexAssign (b : Builder) (fn : Option CgCallee) (target index value : ASTExpr)
    (op : Option Char) : Lower (List CodeStmt) := do
  let i ← b.expr fn index
  let t ← buildIndexTarget b fn target
  let v ← b.expr fn value
  match op with
  | some op => return [.indexUpdate i t op v]
  | none => return [.indexSet i t v]

/-- `build_member_assign_stmt`. -/
def buildMemberAssign (b : Builder) (fn : Option CgCallee) (target : ASTExpr)
    (member : Ident) (value : ASTExpr) (op : Option Char) : Lower (List CodeStmt) := do
  let t ← b.expr fn target
  let v ← b.expr fn value
  match op with
  | some op => return [.memberUpdate t member op v]
  | none => return [.memberSet t member v]

/-! ### Control flow -/

/-- `get_condition_bool`. -/
def buildCondition (b : Builder) (fn : Option CgCallee) (condition : ASTExpr) : Lower Code := do
  match ← b.exprUnboxed fn condition with
  | .unboxed .bool c => return c
  | .boxed (some v) => return .op .isTruthy [v]
  | .boxed none => return .op .isTruthy [← b.expr fn condition]
  | .unboxed _ c => return .seq c (.op .isTruthy [← b.expr fn condition])

/-- `build_if_stmt`. -/
def buildIf (b : Builder) (fn : Option CgCallee) (condition : ASTExpr)
    (thenBranch elseBranch : Option (List ASTStmt)) : Lower (List CodeStmt) := do
  let c ← buildCondition b fn condition
  let thenCode ← buildBody b fn thenBranch
  match elseBranch with
  | none => return [.ifThenElse c fn.isNone thenCode none]
  | some stmts => return [.ifThenElse c fn.isNone thenCode (some (← buildStmts b fn stmts))]

/-- `setup_loop_state`, `setup_loop_scope` and `restore_loop_state` around the
parts of a loop.  The state of the enclosing loop is not restored when one of
them fails. -/
def buildLoop {α : Type} (b : Builder) (fn : Option CgCallee) (head : Lower α)
    (body : Option (List ASTStmt)) : Lower (α × List CodeStmt) := do
  let outer ← get
  modify fun cg => { cg with inLoop := true }
  let a ← head
  if fn.isNone then
    modify fun cg => { cg with loopHasScope := true }
  let code ← buildBody b fn body
  modify fun cg => { cg with inLoop := outer.inLoop, loopHasScope := outer.loopHasScope }
  return (a, code)

/-- `build_while_stmt`. -/
def buildWhile (b : Builder) (fn : Option CgCallee) (condition : ASTExpr)
    (body : Option (List ASTStmt)) : Lower (List CodeStmt) := do
  let (c, code) ← buildLoop b fn (buildCondition b fn condition) body
  return [.whileLoop c fn.isNone code]

/-- `parse_range_literal`, with the conversion to `int`. -/
def rangeLiteral : ASTExpr → Option ℤ
  | .int n => some (n.val.bmod (2 ^ 32))
  | _ => none

/-- `parse_range_args`: the start, the end and the step. -/
def rangeArgs : ASTExpr → Option (ℤ × ℤ × ℤ)
  | .call name args =>
      if name == "range".toList then
        match args with
        | [stop] => do return (0, ← rangeLiteral stop, 1)
        | [start, stop] => do return (← rangeLiteral start, ← rangeLiteral stop, 1)
        | [start, stop, step] => do
            return (← rangeLiteral start, ← rangeLiteral stop, ← rangeLiteral step)
        | _ => none
      else
        none
  | _ => none

/-- `build_for_stmt`. -/
def buildFor (b : Builder) (fn : Option CgCallee) (name : Ident) (rangeExpr : ASTExpr)
    (body : Option (List ASTStmt)) : Lower (List CodeStmt) := do
  match rangeArgs rangeExpr with
  | none => failed
  | some (start, stop, step) =>
      let (_, code) ← buildLoop b fn (pure ()) body
      return [.forRange name start stop step fn.isNone code]

/-- `get_iterable_for_loop`: the iterable, and whether its keys are taken. -/
def buildIterable (b : Builder) (fn : Option CgCallee) (iterable : ASTExpr) :
    Lower (Code × Bool) := do
  let c ← b.expr fn iterable
  let type ← Stateful.reads fun cg => cg.inferTypeDescWithFunction fn iterable
  match type with
  | .dict _ _ => return (.op .dictKeys [c], true)
  | .array _ => return (c, false)
  | _ => failed

/-- `build_for_in_stmt`. -/
def buildForIn (b : Builder) (fn : Option CgCallee) (name : Ident) (iterable : ASTExpr)
    (body : Option (List ASTStmt)) : Lower (List CodeStmt) := do
  let ((c, isDict), code) ← buildLoop b fn (buildIterable b fn iterable) body
  return [.forIn name c isDict fn.isNone code]

/-- `build_return_stmt`. -/
def buildReturn (b : Builder) (fn : Option CgCallee) (e : ASTExpr) : Lower (List CodeStmt) := do
  let v ← b.expr fn e
  if fn.isNone then
    failed
  return [.ret v]

/-! ### Declarations -/

/-- The entry that `build_func_decl_stmt` makes.  The fields of the return type
are left as `malloc` returns them. -/
def functionEntry (decl : FuncDecl) (fn : LLVMFunction) : CgFunction where
  name := decl.name
  fn := some fn
  body := decl.body
  params := decl.params
  requiredParamCount := decl.requiredParamCount
  returnInfo := none

/-- `build_func_decl_stmt`. -/
def buildFuncDecl (decl : FuncDecl) : Lower (List CodeStmt) := do
  let fn ← addFunction decl.name (decl.params.length + 1)
  modify fun cg => { cg with
    functions := functionEntry decl fn :: cg.functions
    trace := .functionAdded decl.name :: cg.trace }
  return []

/-- The parameters of a method, as `add_method_params` adds them: the LLVM
parameters after the return slot and `self` are used in place. -/
def methodParamVars (decl : FuncDecl) : List CgVar :=
  decl.params.mapIdx fun i p => .new p.name (.param (i + 2))

/-- `build_method` and `build_constructor`, up to where the class is told about
the new function. -/
def buildMethodFunction (b : Builder) (c : CgClass) (name : Ident) (decl : FuncDecl) :
    Lower LLVMFunction := do
  let fn ← addFunction (c.name ++ '_' :: name) (decl.params.length + 2)
  let outerScope := (← get).scope
  modify fun cg => { cg with scope := (methodParamVars decl).reverse }
  let callee : CgCallee := ⟨decl.params, false, some c.name⟩
  let code ← buildStmtsUntested b (some callee) (decl.body.getD [])
  modify fun cg => { cg with
    scope := outerScope
    module := {
      fn := fn
      params := (methodParamVars decl).map fun v => (v.name, v.alloca)
      mirrorsParams := false
      code := code } :: cg.module }
  return fn

/-- A change to the class of that name. -/
def updateClass (name : Ident) (f : CgClass → CgClass) : Lower Unit :=
  modify fun cg => { cg with
    classes := cg.classes.map fun c => if c.name == name then f c else c }

/-- `build_constructor`. -/
def buildConstructor (b : Builder) (c : CgClass) : Lower Unit := do
  match c.constructor with
  | none => pure ()
  | some decl =>
      let fn ← buildMethodFunction b c "init".toList decl
      updateClass c.name fun c => { c with constructorFunction := some fn }

/-- The loop of `build_class_decl_stmt` over the methods, from an index on.  A
method named `init` is skipped. -/
def buildMethods (b : Builder) (c : CgClass) : ℕ → List FuncDecl → Lower Unit
  | _, [] => pure ()
  | index, decl :: methods => do
      if decl.name != "init".toList then
        let fn ← buildMethodFunction b c decl.name decl
        updateClass c.name fun c =>
          { c with methodFunctions := c.methodFunctions.set index (some fn) }
      buildMethods b c (index + 1) methods

/-- `build_class_decl_stmt`. -/
def buildClassDecl (b : Builder) (name : Ident) : Lower (List CodeStmt) := do
  match (← get).findClass name with
  | none => failed
  | some c =>
      buildConstructor b c
      buildMethods b c 0 c.methods
      return []

/-! ### Statements -/

/-- `cg_build_stmt`. -/
def buildStmt (b : Builder) (fn : Option CgCallee) (s : ASTStmt) : Lower (List CodeStmt) :=
  match s with
  | .expr e => do return [.eval (← b.expr fn e)]
  | .varAssign name value op => buildVarAssign b fn name value op
  | .indexAssign target index value op => buildIndexAssign b fn target index value op
  | .memberAssign target member value op => buildMemberAssign b fn target member value op
  | .print e => do return [.print (← b.expr fn e)]
  | .varDecl name type typeDesc init isConst =>
      buildVarDecl b fn name type typeDesc init isConst
  | .ifStmt condition thenBranch elseBranch => buildIf b fn condition thenBranch elseBranch
  | .whileStmt condition body => buildWhile b fn condition body
  | .forStmt name rangeExpr body => buildFor b fn name rangeExpr body
  | .forIn name iterable body => buildForIn b fn name iterable body
  | .funcDecl decl => buildFuncDecl decl
  | .return e _ => buildReturn b fn e
  | .break => do
      let cg ← get
      if cg.inLoop then return [.breakLoop cg.loopHasScope] else failed
  | .continue => do
      let cg ← get
      if cg.inLoop then return [.continueLoop cg.loopHasScope] else failed
  | .structDecl _ _ => return []
  | .classDecl name _ _ _ _ => buildClassDecl b name
  | .importStmt _ _ _ _ | .exportStmt _ _ => failed

/-- The builder that is `n` nested calls away from running out of stack. -/
def builder : ℕ → Builder
  | 0 =>
      { expr := fun _ _ => throw .diverges
        exprUnboxed := fun _ _ => throw .diverges
        stmt := fun _ _ => throw .diverges }
  | n + 1 =>
      { expr := buildExpr (builder n)
        exprUnboxed := buildExprUnboxed (builder n)
        stmt := buildStmt (builder n) }

/-! ### The module -/

/-- `setup_function_parameters`: each parameter gets a slot. -/
def setupParams : List ASTParam → Lower (List (Ident × StackSlot))
  | [] => return []
  | p :: params => do
      let slot ← newSlot
      scopeAddVar { CgVar.new p.name slot with
        typeDesc := p.typeDesc
        type := (p.typeDesc.map TypeDescriptor.baseType).getD .typeNil }
      return (p.name, slot) :: (← setupParams params)

/-- The loop body of `bread_llvm_generate_function_bodies`. -/
def generateFunctionBody (b : Builder) (f : CgFunction) : Lower Unit := do
  match f.body with
  | none => pure ()
  | some stmts =>
      let fn ← deref f.fn
      modify fun cg => { cg with scope := [] }
      let params ← setupParams f.params
      let code ← buildStmts b (some ⟨f.params, true, none⟩) stmts
      modify fun cg => { cg with module := ⟨fn, params, true, code⟩ :: cg.module }

/-- `bread_llvm_generate_function_bodies`.  The entries that are added on the way
are in front of the ones that are still to come. -/
def generateFunctionBodies (b : Builder) (functions : List CgFunction) : Lower Unit :=
  functions.forM (generateFunctionBody b)

/-- `bread_llvm_generate_class_methods`: every method has been built by then, and
a class whose methods have not is used through a null pointer. -/
def generateClassMethods (classes : List CgClass) : Lower Unit :=
  classes.forM fun c =>
    (c.methods.zip c.methodFunctions).forM fun m =>
      if m.1.name == "init".toList then pure ()
      else do
        let _ ← deref m.2
        pure ()

/-- `bread_llvm_build_module_from_program`, after the analysis: the code of
`main`. -/
def buildModule (n : ℕ) (program : ASTStmtList) : Lower (List CodeStmt) := do
  let main ← buildStmts (builder n) none program
  generateFunctionBodies (builder n) (← get).functions
  generateClassMethods (← get).classes
  return main

end BreadLang
