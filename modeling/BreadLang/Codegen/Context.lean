import BreadLang.Codegen.Ir

/-!
# The state of the code generator

`Cg` is the state that the semantic analysis and the code generator share.  The
analysis fills the tables of functions, structs and classes; the generator
prepends to the table of functions, records the methods it has compiled, and
keeps the scope of the function that it is building.

A function of the generator takes the state and returns it, also when it fails:
what it has done until then stays done.  `Lower` is that monad.  The reason of a
failure tells apart a null result, which one caller ignores, from a crash of the
compiler, which none does.

`Cg.trace` records the decisions of the generator that later passes rely on, in
the order in which they are taken, newest first.  Nothing reads it.
-/

namespace BreadLang

/-- `CgVar`.  The semantic analysis keeps the depth of the scope in
`isInitialized` and leaves the slot unset. -/
structure CgVar where
  name : Ident
  alloca : StackSlot
  type : VarType
  typeDesc : Option TypeDescriptor
  unboxedType : Option UnboxedType
  isConst : Bool
  isInitialized : ℕ

/-- `CgFunction`, an entry of the table of functions.  The LLVM function and its
type are set together.  `returnInfo` is missing where the fields of the return
type are never initialised. -/
structure CgFunction where
  name : Ident
  fn : Option LLVMFunction
  body : Option ASTStmtList
  params : List ASTParam
  requiredParamCount : ℕ
  returnInfo : Option (VarType × Option TypeDescriptor)

/-- `CgStruct`. -/
structure CgStruct where
  name : Ident
  fields : List (Ident × TypeDescriptor)

/-- `CgClass`.  `methodFunctions` has an entry for each method. -/
structure CgClass where
  name : Ident
  parentName : Option Ident
  fields : List (Ident × TypeDescriptor)
  methods : List FuncDecl
  constructor : Option FuncDecl
  methodFunctions : List (Option LLVMFunction)
  constructorFunction : Option LLVMFunction

/-- What building an expression or a statement reads of the function it is
built in.  `currentClass` is the class of a method; the pointer of a plain
function is never initialised and names no class. -/
structure CgCallee where
  params : List ASTParam
  hasParamTypes : Bool
  currentClass : Option Ident

/-- Where an assignment stores, and where a read loads from. -/
inductive Location where
  | slot (s : StackSlot)
  | global (name : Ident)
  | selfField (name : Ident)
  deriving DecidableEq

/-- A decision of the code generator. -/
inductive CgEvent where
  /-- `build_func_decl_stmt` has added the entry of a function. -/
  | functionAdded (name : Ident)
  /-- `cg_build_expr` has resolved a call to an entry of the table. -/
  | functionCalled (callee : CgFunction)
  /-- An assignment to a name has been built, in the given function, scope and
  classes. -/
  | variableAssigned (fn : Option CgCallee) (scope : List CgVar) (classes : List CgClass)
      (name : Ident) (op : Option Char) (target : Location)
  /-- A method call on a variable has been built; a direct call names the class,
  the index of the method in it and the compiled function. -/
  | methodCalled (target name : Ident) (argCount : ℕ)
      (direct : Option (Ident × ℕ × LLVMFunction))

/-- The part of `Cg` that the analysis and the generator use.  The loop fields
say whether the pointers to the blocks of the innermost loop are set. -/
structure Cg where
  functions : List CgFunction
  structs : List CgStruct
  classes : List CgClass
  globalVars : List CgVar
  scopeDepth : ℕ
  scope : List CgVar
  nextSlot : ℕ
  nextFunction : ℕ
  inLoop : Bool
  loopHasScope : Bool
  module : List CodeBody
  trace : List CgEvent

/-- `cg_init`. -/
def Cg.init : Cg where
  functions := []
  structs := []
  classes := []
  globalVars := []
  scopeDepth := 0
  scope := []
  nextSlot := 0
  nextFunction := 0
  inLoop := false
  loopHasScope := false
  module := []
  trace := []

/-- What `cg_error` and its variants report: the message, the name quoted after
it, and the expected and actual types. -/
structure CgError where
  message : String
  name : Option Ident
  types : Option (TypeDescriptor × TypeDescriptor)

/-- Why a function of the code generator does not succeed. -/
inductive CgFail where
  /-- It returns zero or `NULL`; an error may have been reported. -/
  | failed (error : Option CgError)
  /-- It dereferences a null pointer, or reads memory that was never set. -/
  | crashed
  /-- It never returns. -/
  | diverges

/-- The outcome of a function that only reads the state. -/
abbrev CgResult := Except CgFail

/-- A return of zero or `NULL` with no error. -/
def failed {α : Type} : CgResult α :=
  .error (.failed none)

/-- `cg_error`, and a return of zero or `NULL`. -/
def cgError {α : Type} (message : String) (name : Option Ident) : CgResult α :=
  .error (.failed (some ⟨message, name, none⟩))

/-- `cg_type_error`, and a return of zero or `NULL`. -/
def cgTypeError {α : Type} (message : String) (expected actual : TypeDescriptor) :
    CgResult α :=
  .error (.failed (some ⟨message, none, some (expected, actual)⟩))

namespace Cg

variable (cg : Cg)

/-- `cg_find_function`, and the loop of `cg_build_expr` that does the same. -/
def findFunction (name : Ident) : Option CgFunction :=
  cg.functions.find? fun f => f.name == name

/-- `cg_find_class`. -/
def findClass (name : Ident) : Option CgClass :=
  cg.classes.find? fun c => c.name == name

/-- `cg_find_struct`. -/
def findStruct (name : Ident) : Option CgStruct :=
  cg.structs.find? fun s => s.name == name

/-- `cg_find_var`. -/
def findVar (name : Ident) : Option CgVar :=
  cg.globalVars.find? fun v => v.name == name

/-- `cg_find_var_in_scope`. -/
def findVarInScope (name : Ident) : Option CgVar :=
  cg.globalVars.find? fun v => v.name == name && v.isInitialized ≤ cg.scopeDepth

/-- `cg_scope_find_var` on the scope of the function being built, which has no
parent. -/
def scopeFindVar (name : Ident) : Option CgVar :=
  cg.scope.find? fun v => v.name == name

/-! ### Walks over the ancestors of a class -/

/-- The class that `parent_name` names. -/
def parentClass (c : CgClass) : Option CgClass :=
  c.parentName.bind cg.findClass

/-- The first answer that `p` gives on a class and its ancestors, in at most
`n` steps. -/
def searchAncestorsLoop {α : Type} (p : CgClass → CgResult (Option α)) :
    ℕ → CgClass → CgResult (Option α)
  | 0, _ => .error .diverges
  | n + 1, c => do
      match ← p c with
      | some a => return some a
      | none =>
          match cg.parentClass c with
          | none => return none
          | some parent => searchAncestorsLoop p n parent

/-- A loop `while (current)` that moves to the parent.  A walk that is longer
than the table of classes has met one class twice and goes on for ever. -/
def searchAncestors {α : Type} (c : CgClass) (p : CgClass → CgResult (Option α)) :
    CgResult (Option α) :=
  cg.searchAncestorsLoop p (cg.classes.length + 1) c

/-- The classes that such a loop visits. -/
def ancestorsLoop : ℕ → CgClass → CgResult (List CgClass)
  | 0, _ => .error .diverges
  | n + 1, c =>
      match cg.parentClass c with
      | none => return [c]
      | some parent => return c :: (← ancestorsLoop n parent)

/-- A class and its ancestors, nearest first. -/
def ancestors (c : CgClass) : CgResult (List CgClass) :=
  cg.ancestorsLoop (cg.classes.length + 1) c

end Cg

end BreadLang
