import BreadLang.Codegen.Infer
import BreadLang.Library.Stateful
import Mathlib.Data.List.Infix

/-!
# Building expressions

`cg_build_expr` and the unboxed variants of it.  They call each other, and
`cg_build_stmt` calls them, on subexpressions and also on the default values of
parameters, which are not parts of the expression.  The recursive calls go
through a `Builder`, and `builder n` is the one that is `n` calls away from
running out of stack; it is defined once all the functions are there.

The instructions that a function emits are its result, a tree of `Code`.  The
state is threaded through, so what a function adds to a table stays when a later
step fails.
-/

namespace BreadLang

/-- The outcome of a function of the code generator. -/
abbrev Lower := Stateful Cg CgFail

/-- The functions that build code, as they call each other. -/
structure Builder where
  /-- `cg_build_expr`. -/
  expr : Option CgCallee → ASTExpr → Lower Code
  /-- `cg_build_expr_unboxed`. -/
  exprUnboxed : Option CgCallee → ASTExpr → Lower CgValue
  /-- `cg_build_stmt`. -/
  stmt : Option CgCallee → ASTStmt → Lower (List CodeStmt)

namespace Lower

/-- A return of zero or `NULL`. -/
def failed {α : Type} : Lower α :=
  throw (.failed none)

/-- A use of a null pointer that the C code does not test. -/
def crashed {α : Type} : Lower α :=
  throw .crashed

/-- The failures that a caller can see as a null result. -/
def isNullResult : CgFail → Bool
  | .failed _ => true
  | _ => false

/-- A call whose result is tested for `NULL`. -/
def testNull {α : Type} (m : Lower α) : Lower (Option α) :=
  Stateful.attempt isNullResult m

/-- A null pointer that is used without a test. -/
def deref {α : Type} : Option α → Lower α
  | some a => pure a
  | none => crashed

/-- A decision is recorded. -/
def record (event : CgEvent) : Lower Unit :=
  modify fun cg => { cg with trace := event :: cg.trace }

end Lower

open Lower

/-! ### Unboxed expressions -/

/-- `cg_can_unbox_expr`. -/
def canUnboxExpr : ASTExpr → Bool
  | .int _ | .bool _ | .double _ => true
  | .var _ => true
  | .binary _ left right => canUnboxExpr left && canUnboxExpr right
  | .unary _ operand => canUnboxExpr operand
  | _ => false

/-- The table of instructions on two `i64` in `cg_build_binary_unboxed`. -/
def intInstruction : Char → Option (UnboxedType × LLVMOp)
  | '+' => some (.int, .add)
  | '-' => some (.int, .sub)
  | '*' => some (.int, .mul)
  | '/' => some (.int, .sdiv)
  | '%' => some (.int, .srem)
  | '=' => some (.bool, .icmpEq)
  | '<' => some (.bool, .icmpSlt)
  | '>' => some (.bool, .icmpSgt)
  | _ => none

/-- The table of instructions on two `double`s. -/
def doubleInstruction : Char → Option (UnboxedType × LLVMOp)
  | '+' => some (.double, .fadd)
  | '-' => some (.double, .fsub)
  | '*' => some (.double, .fmul)
  | '/' => some (.double, .fdiv)
  | '=' => some (.bool, .fcmpOeq)
  | '<' => some (.bool, .fcmpOlt)
  | '>' => some (.bool, .fcmpOgt)
  | _ => none

/-- The instruction on two unboxed operands, if they have the same type and the
table of that type has the operator. -/
def binaryInstruction (op : Char) : UnboxedType → UnboxedType → Option (UnboxedType × LLVMOp)
  | .int, .int => intInstruction op
  | .double, .double => doubleInstruction op
  | _, _ => none

/-- The end of `cg_build_binary_unboxed`: both operands are boxed. -/
def buildBinaryFallback (op : Char) (l r : CgValue) : Lower CgValue := do
  let lb ← deref (boxValue l)
  let rb ← deref (boxValue r)
  return .boxed (some (.op (.binaryOp op) [lb, rb]))

/-- `cg_build_binary_unboxed`. -/
def buildBinaryUnboxed (b : Builder) (fn : Option CgCallee) (left right : ASTExpr)
    (op : Char) : Lower CgValue := do
  let l ← b.exprUnboxed fn left
  let r ← b.exprUnboxed fn right
  match l, r with
  | .unboxed s lv, .unboxed t rv =>
      match binaryInstruction op s t with
      | some (type, instruction) => return .unboxed type (.op (.llvm instruction) [lv, rv])
      | none => buildBinaryFallback op l r
  | _, _ => buildBinaryFallback op l r

/-- The end of `cg_build_unary_unboxed`: the operand is boxed.  Only `!` emits
an operation; for any other operator the result is the fresh value. -/
def buildUnaryFallback (op : Char) (v : CgValue) : Lower CgValue := do
  let boxed ← deref (boxValue v)
  if op == '!' then
    return .boxed (some (.op .unaryNot [boxed]))
  else
    return .boxed (some (.seq boxed (.op .setNil [])))

/-- `cg_build_unary_unboxed`. -/
def buildUnaryUnboxed (b : Builder) (fn : Option CgCallee) (operand : ASTExpr)
    (op : Char) : Lower CgValue := do
  let v ← b.exprUnboxed fn operand
  match op, v with
  | '-', .unboxed .int n => return .unboxed .int (.op (.llvm .sub) [.op (.constInt 0) [], n])
  | '-', .unboxed .double d => return .unboxed .double (.op (.llvm .fneg) [d])
  | '!', .unboxed .bool c => return .unboxed .bool (.op (.llvm .not) [c])
  | _, _ => buildUnaryFallback op v

/-- The slot of an unboxed local variable, with its type. -/
def unboxedSlot (cg : Cg) (fn : Option CgCallee) (name : Ident) :
    Option (UnboxedType × StackSlot) :=
  match fn.bind fun _ => cg.scopeFindVar name with
  | some var => var.unboxedType.map fun type => (type, var.alloca)
  | none => none

/-- `cg_build_expr`, as the value of an expression that stays boxed. -/
def buildBoxed (b : Builder) (fn : Option CgCallee) (e : ASTExpr) : Lower CgValue := do
  return .boxed (← testNull (b.expr fn e))

/-- `cg_build_expr_unboxed`. -/
def buildExprUnboxed (b : Builder) (fn : Option CgCallee) (e : ASTExpr) : Lower CgValue :=
  if e.isNull then
    return .boxed none
  else if !canUnboxExpr e then
    buildBoxed b fn e
  else
    match e with
    | .int n => return .unboxed .int (.op (.constInt n) [])
    | .double d => return .unboxed .double (.op (.constReal d) [])
    | .bool v => return .unboxed .bool (.op (.constBool v) [])
    | .var name => do
        match unboxedSlot (← get) fn name with
        | some (type, slot) => return .unboxed type (.load type slot)
        | none => buildBoxed b fn e
    | .binary op left right => buildBinaryUnboxed b fn left right op
    | .unary op operand => buildUnaryUnboxed b fn operand op
    | _ => buildBoxed b fn e

/-! ### Variables -/

/-- Whether a class declares a field of that name.  A class with more than 4096
fields is taken to have none. -/
def declaresField (c : CgClass) (name : Ident) : Bool :=
  decide (c.fields.length ≤ 4096) && c.fields.any fun f => f.1 == name

/-- The loop over the classes of a method that looks for a field: at most 64 of
them, and none when the class of the method is not in the table. -/
def isFieldLoop (cg : Cg) (name : Ident) : ℕ → CgClass → Bool
  | 0, _ => false
  | n + 1, c =>
      declaresField c name ||
        match cg.parentClass c with
        | some parent => isFieldLoop cg name n parent
        | none => false

/-- Whether a name in a function is a field of the class of `self`. -/
def isSelfField (cg : Cg) (fn : Option CgCallee) (name : Ident) : Bool :=
  match (fn.bind CgCallee.currentClass).bind cg.findClass with
  | some c => isFieldLoop cg name 64 c
  | none => false

/-- The variable case of `cg_build_expr`. -/
def buildVar (cg : Cg) (fn : Option CgCallee) (name : Ident) : Code :=
  match fn.bind fun _ => cg.scopeFindVar name with
  | some var =>
      match var.unboxedType with
      | some type => .op (.box type) [.load type var.alloca]
      | none => .cloneSlot var.alloca
  | none =>
      if isSelfField cg fn name then .op (.memberOp name false) [.selfParam]
      else .varLoad name

/-! ### Calls -/

/-- The expressions whose values are passed to the parameters of a function:
the arguments, and the defaults of the parameters without one.  A parameter with
neither has `null`, and arguments in excess are dropped. -/
def callArgs : List ASTExpr → List ASTParam → List ASTExpr
  | _, [] => []
  | [], p :: params => p.default :: callArgs [] params
  | arg :: args, _ :: params => arg :: callArgs args params

/-- The call of a user function in `cg_build_expr`. -/
def buildFunctionCall (b : Builder) (fn : Option CgCallee) (callee : CgFunction)
    (args : List ASTExpr) : Lower Code := do
  record (.functionCalled callee)
  let values ← (callArgs args callee.params).mapM (b.expr fn)
  return .callFunction (← deref callee.fn) values

/-- `cg_collect_all_fields`: the inherited fields first. -/
def collectAllFields (cg : Cg) (c : CgClass) : CgResult (List Ident) := do
  let chain ← cg.ancestors c
  return chain.reverse.flatMap fun c => c.fields.map Prod.fst

/-- The call of a constructor in `cg_build_expr`. -/
def buildConstructorCall (b : Builder) (fn : Option CgCallee) (c : CgClass)
    (args : List ASTExpr) : Lower Code := do
  let fieldNames ← Stateful.reads fun cg => collectAllFields cg c
  let methodNames := c.methods.map ASTFuncDecl.name
  match c.constructor with
  | none => return .newInstance c.name c.parentName fieldNames methodNames none
  | some init =>
      let values ← (callArgs args init.params).mapM (b.expr fn)
      return .newInstance c.name c.parentName fieldNames methodNames (some values)

/-- The operands of `range` with two or three arguments: both bounds are built
before either is tested. -/
def buildBounds (b : Builder) (fn : Option CgCallee) (start stop : ASTExpr) :
    Lower (Code × Code) := do
  let start ← testNull (b.expr fn start)
  let stop ← testNull (b.expr fn stop)
  match start, stop with
  | some start, some stop =>
      return (.op (.unbox .int) [start], .op (.unbox .int) [stop])
  | _, _ => failed

/-- The call of `range` in `cg_build_expr`. -/
def buildRange (b : Builder) (fn : Option CgCallee) (args : List ASTExpr) : Lower Code := do
  match args with
  | [stop] => return .op .rangeSimple [.op (.unbox .int) [← b.expr fn stop]]
  | [start, stop] =>
      let (start, stop) ← buildBounds b fn start stop
      return .op .rangeCreate [start, stop, .op (.constInt 1) []]
  | [start, stop, step] =>
      let (start, stop) ← buildBounds b fn start stop
      return .op .rangeCreate [start, stop, .op (.unbox .int) [← b.expr fn step]]
  | _ => failed

/-- The call case of `cg_build_expr`. -/
def buildCall (b : Builder) (fn : Option CgCallee) (name : Ident) (args : List ASTExpr) :
    Lower Code :=
  if name == "range".toList then
    buildRange b fn args
  else
    match builtinLookup name with
    | some builtin =>
        if builtin.paramCount != args.length then failed
        else do return .op (.builtinCall name) (← args.mapM (b.expr fn))
    | none => do
        match (← get).findFunction name with
        | some callee => buildFunctionCall b fn callee args
        | none =>
            match (← get).findClass name with
            | some c => buildConstructorCall b fn c args
            | none => failed

/-! ### Method calls -/

/-- The index of the first method of that name in a class, and its compiled
function, if it has been built. -/
def compiledMethod (c : CgClass) (name : Ident) : Option (ℕ × LLVMFunction) := do
  let index ← c.methods.findIdx? fun m => m.name == name
  let fn ← (← c.methodFunctions[index]?)
  return (index, fn)

/-- The heuristic of `cg_build_expr` for a direct call: the first class whose
name occurs in the name of the variable, if it has a compiled method of that
name. -/
def directMethod (cg : Cg) (target : ASTExpr) (name : Ident) :
    Option (Ident × ℕ × LLVMFunction) :=
  match target with
  | .var varName => do
      let inferred ← cg.classes.find? fun c => decide (c.name <:+: varName)
      let targetClass ← cg.findClass inferred.name
      let (index, fn) ← compiledMethod targetClass name
      return (targetClass.name, index, fn)
  | _ => none

/-- The name of the parent class, for a call of `super.init` in a method. -/
def superInitParent (cg : Cg) (fn : Option CgCallee) (target : ASTExpr) (name : Ident) :
    Option Ident :=
  match target with
  | .super =>
      if name == "init".toList then
        ((fn.bind CgCallee.currentClass).bind cg.findClass).bind CgClass.parentName
      else
        none
  | _ => none

/-- The choice of a direct call.  It is recorded when the target is a
variable. -/
def chooseMethod (target : ASTExpr) (name : Ident) (argCount : ℕ) :
    Lower (Option (Ident × ℕ × LLVMFunction)) := do
  let direct := directMethod (← get) target name
  match target with
  | .var varName =>
      record (.methodCalled varName name argCount direct)
      return direct
  | _ => return direct

/-- The method call case of `cg_build_expr`. -/
def buildMethodCall (b : Builder) (fn : Option CgCallee) (target : ASTExpr) (name : Ident)
    (args : List ASTExpr) (isOptionalChain : Bool) : Lower Code := do
  let self ← b.expr fn target
  match superInitParent (← get) fn target name with
  | some parentName => return .superInit parentName (← args.mapM (b.expr fn))
  | none =>
      let direct ← chooseMethod target name args.length
      let values ← args.mapM (b.expr fn)
      match direct with
      | some (_, _, method) => return .callMethod method self values
      | none => return .methodCallOp self name values isOptionalChain

/-! ### Literals -/

/-- The loop body of the array literal case of `cg_build_expr`: an element that
could not be built is tried once more. -/
def buildElement (b : Builder) (fn : Option CgCallee) (e : ASTExpr) : Lower Code := do
  match boxValue (← b.exprUnboxed fn e) with
  | some value => return value
  | none => b.expr fn e

/-- The loop body of the dictionary literal case of `cg_build_expr`. -/
def buildEntry (b : Builder) (fn : Option CgCallee) (entry : ASTExpr × ASTExpr) :
    Lower (List Code) := do
  if entry.1.isNull || entry.2.isNull then
    failed
  let key ← b.expr fn entry.1
  let value ← b.expr fn entry.2
  return [key, value]

/-- A literal that is built unboxed, if it can be, and boxed. -/
def buildLiteral (b : Builder) (fn : Option CgCallee) (e : ASTExpr) (boxed : Code) :
    Lower Code := do
  if canUnboxExpr e then
    match ← b.exprUnboxed fn e with
    | .unboxed type value => return .op (.box type) [value]
    | .boxed _ => return boxed
  return boxed

/-! ### Expressions -/

/-- The end of the binary case of `cg_build_expr`.  The branch for a `+` with a
call of a built-in function emits what the general one does. -/
def buildBinaryBoxed (b : Builder) (fn : Option CgCallee) (op : Char)
    (left right : ASTExpr) : Lower Code := do
  let l ← b.expr fn left
  let r ← b.expr fn right
  return .op (.binaryOp op) [l, r]

/-- The binary case of `cg_build_expr`. -/
def buildBinary (b : Builder) (fn : Option CgCallee) (op : Char) (left right : ASTExpr) :
    Lower Code :=
  if canUnboxExpr (.binary op left right) then do
    match boxValue (← buildBinaryUnboxed b fn left right op) with
    | some value => return value
    | none => buildBinaryBoxed b fn op left right
  else
    buildBinaryBoxed b fn op left right

/-- The end of the unary case of `cg_build_expr`. -/
def buildUnaryBoxed (b : Builder) (fn : Option CgCallee) (op : Char) (operand : ASTExpr) :
    Lower Code := do
  let v ← b.expr fn operand
  if op == '!' then
    return .op .unaryNot [v]
  else if op == '-' then
    return .op (.binaryOp '-') [.op (.setInt 0) [], v]
  else
    failed

/-- The unary case of `cg_build_expr`. -/
def buildUnary (b : Builder) (fn : Option CgCallee) (op : Char) (operand : ASTExpr) :
    Lower Code :=
  if canUnboxExpr (.unary op operand) then do
    match boxValue (← buildUnaryUnboxed b fn operand op) with
    | some value => return value
    | none => buildUnaryBoxed b fn op operand
  else
    buildUnaryBoxed b fn op operand

/-- `cg_build_expr`. -/
def buildExpr (b : Builder) (fn : Option CgCallee) (e : ASTExpr) : Lower Code :=
  match e with
  | .null => failed
  | .nil => return .op .setNil []
  | .bool v => buildLiteral b fn e (.op (.setBool v) [])
  | .int n => buildLiteral b fn e (.op (.setInt n) [])
  | .double d => buildLiteral b fn e (.op (.setDouble d) [])
  | .string s | .stringLiteral s => return .op (.setString s) []
  | .var name => do return buildVar (← get) fn name
  | .binary op left right => buildBinary b fn op left right
  | .unary op operand => buildUnary b fn op operand
  | .index target index => do
      let t ← b.expr fn target
      let i ← b.expr fn index
      return .op .indexOp [t, i]
  | .member target member isOptionalChain => do
      return .op (.memberOp member isOptionalChain) [← b.expr fn target]
  | .methodCall target name args isOptionalChain =>
      buildMethodCall b fn target name args isOptionalChain
  | .call name args => buildCall b fn name args
  | .arrayLiteral elements => do
      return .op .arrayLiteral (← elements.mapM (buildElement b fn))
  | .dict entries => do
      return .op .dictLiteral (← entries.mapM (buildEntry b fn)).flatten
  | .structLiteral name fields => do
      let values ← fields.mapM fun f => b.expr fn f.2
      return .op (.structLiteral name (fields.map Prod.fst)) values
  | .classLiteral name fields => do
      let values ← fields.mapM fun f => b.expr fn f.2
      return .op (.classLiteral name (fields.map Prod.fst)) values
  | .self =>
      if (fn.bind CgCallee.currentClass).isSome then return .cloneSelf else failed
  | .super => do
      match ((fn.bind CgCallee.currentClass).bind (← get).findClass).bind CgClass.parentName with
      | some _ => return .cloneSelf
      | none => failed
  | .array _ => failed

end BreadLang
