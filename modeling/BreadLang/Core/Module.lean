import BreadLang.Core.ModulePath
import BreadLang.Library.Hoare
import BreadLang.Library.LinkedList
import BreadLang.Runtime.Vars

/-!
# Modules

The registry of `module.c`, and the pass that replaces the imports of a program
by the statements of the modules it imports.

A module is a record that is found by its resolved path, so a `Module*` is a path
here.  Statements are nodes of a heap, which the pass unlinks, moves to another
list and frees.  A statement carries its location: the file it was read from and
its position there.  `ModuleState.imports` is no data of the program; it keeps,
for each call of `process_import_statement`, what the call found and whether it
succeeded.

`preprocessModule` recurses along the imports of a module.  Its bound on the depth
is what the recursion of the C code does not have: `ModuleFail.diverges` is a run
that has gone deeper.  Allocations succeed, and a file that can be found can be read.
-/

namespace BreadLang

/-- The file a statement comes from. -/
inductive SourceFile where
  | entry
  | module (path : FilePath)
  deriving DecidableEq

/-- `SourceLoc`: the file, and the position of the statement in it. -/
structure SourceLoc where
  file : SourceFile
  index : ℕ
  deriving DecidableEq

/-- A statement and its location. -/
structure StmtNode where
  loc : SourceLoc
  stmt : ASTStmt

/-- Whether the statement stays in the program: it is no import and no export. -/
def StmtNode.isPlain (node : StmtNode) : Bool :=
  match node.stmt with
  | .importStmt _ _ _ _ | .exportStmt _ _ => false
  | _ => true

/-- What a symbol points to: an entry of the table of functions, a variable or a
class, each under its name. -/
inductive SymbolPtr where
  | function (name : Ident)
  | variable (name : Ident)
  | class (name : Ident)
  deriving DecidableEq

/-- `ModuleSymbol`. -/
structure ModuleSymbol where
  name : Ident
  symbolAlias : Option Ident
  ptr : SymbolPtr
  isDefault : Bool
  deriving DecidableEq

/-- `QualifiedSymbol`. -/
structure QualifiedSymbol where
  qualifiedName : Ident
  ptr : SymbolPtr
  deriving DecidableEq

/-- `Module`, without its resolved path. -/
structure Module where
  name : Ident
  filePath : FilePath
  ast : Option LinkedList
  exports : List ModuleSymbol
  isCompiled : Bool
  isLoading : Bool
  isPreprocessed : Bool
  isIncluded : Bool
  defaultExportName : Option Ident
  defaultExportType : VarType
  defaultExportTypeDesc : Option TypeDescriptor

/-- The record of a module that has just been loaded. -/
def Module.fresh (resolved path : FilePath) : Module where
  name := moduleGetNameFromPath resolved
  filePath := path
  ast := none
  exports := []
  isCompiled := false
  isLoading := false
  isPreprocessed := false
  isIncluded := false
  defaultExportName := none
  defaultExportType := .typeNil
  defaultExportTypeDesc := none

/-- `Function`. -/
structure Function where
  name : Ident
  params : List (Ident × VarType)
  returnType : VarType
  body : Option ASTStmtList

/-- `MAX_FUNCTIONS`. -/
def maxFunctions : ℕ := 256

/-- A call of `process_import_statement` that has got to its module: the module, the
statement, what is exported and registered at that moment, and the result. -/
structure ImportCall where
  module : FilePath
  moduleAlias : Option Ident
  isSelective : Bool
  symbols : List (Ident × Option Ident)
  isPreprocessed : Bool
  exports : List ModuleSymbol
  qualified : List QualifiedSymbol
  succeeded : Bool

/-- The state of the pass. -/
structure ModuleState where
  modules : FilePath → Option Module
  qualified : List QualifiedSymbol
  heap : NodeHeap StmtNode
  scopes : ScopeStack
  functions : List Function
  classes : List Ident
  imports : List ImportCall

/-- How the functions of the pass fail: with an error, or not at all. -/
inductive ModuleFail where
  | error (e : ModuleError)
  | stopped (s : Stop)
  | diverges
  deriving DecidableEq

/-- The functions of the pass. -/
abbrev ModuleM := Stateful ModuleState ModuleFail

namespace ModuleState

/-- The state in which the pass starts: no module has been loaded, and only the
global scope is in use. -/
def init : ModuleState where
  modules _ := none
  qualified := []
  heap := .empty
  scopes := [[]]
  functions := []
  classes := []
  imports := []

/-- The state with another record for a module. -/
def setModule (s : ModuleState) (p : FilePath) (m : Module) : ModuleState :=
  { s with modules := Function.update s.modules p (some m) }

@[simp] theorem modules_setModule_self (s : ModuleState) (p : FilePath) (m : Module) :
    (s.setModule p m).modules p = some m :=
  Function.update_self ..

theorem modules_setModule_of_ne (s : ModuleState) {p q : FilePath} (m : Module) (hne : q ≠ p) :
    (s.setModule p m).modules q = s.modules q :=
  Function.update_of_ne hne ..

theorem setModule_setModule (s : ModuleState) (p : FilePath) (m m' : Module) :
    (s.setModule p m).setModule p m' = s.setModule p m' := by
  unfold setModule
  rw [Function.update_idem]

theorem setModule_self {s : ModuleState} {p : FilePath} {m : Module} (h : s.modules p = some m) :
    s.setModule p m = s := by
  unfold setModule
  rw [← h, Function.update_eq_self]

/-- The state in which a module has a record: the one that `module_find_loaded` finds, or
a new one. -/
def load (s : ModuleState) (p path : FilePath) : ModuleState :=
  match s.modules p with
  | some _ => s
  | none => s.setModule p (.fresh p path)

end ModuleState

namespace ModuleM

variable {α : Type}

/-- A function that sets an error and returns zero. -/
def fail (e : ModuleError) : ModuleM α :=
  throw (.error e)

/-- An access through a null pointer. -/
def nullAccess : ModuleM α :=
  throw (.stopped (.undefined .nullDereference))

/-- An access to a statement that has been freed. -/
def freedAccess : ModuleM α :=
  throw (.stopped (.undefined .useAfterFree))

/-- The result of a function that may stop the process. -/
def ofExec : Exec α → ModuleM α
  | .ok a => return a
  | .error e => throw (.stopped e)

/-- A result of path resolution. -/
def ofResolved : Except ModuleError α → ModuleM α
  | .ok a => return a
  | .error e => fail e

/-- The record of a module. -/
def module (p : FilePath) : ModuleM Module := do
  match (← get).modules p with
  | some m => return m
  | none => nullAccess

/-- A change of the record of a module. -/
def updateModule (p : FilePath) (f : Module → Module) : ModuleM Unit := do
  let m ← module p
  modify (·.setModule p (f m))

/-- A new statement. -/
def newStmt (node : StmtNode) : ModuleM ℕ :=
  modifyGet fun s => (s.heap.size, { s with heap := s.heap.alloc node })

/-- `ast_stmt_list_append_stmt`, and `ast_stmt_list_add`. -/
def appendStmt (list : LinkedList) (a : ℕ) : ModuleM LinkedList := do
  match (← get).heap.append list a with
  | none => freedAccess
  | some (heap, list) =>
      modify fun s => { s with heap }
      return list

/-- A read of a statement. -/
def readStmt (a : ℕ) : ModuleM (Node StmtNode) := do
  match (← get).heap.cells a with
  | none => freedAccess
  | some node => return node

/-- `st->next = NULL`, for a statement that has just been read. -/
def unlinkStmt (a : ℕ) : ModuleM Unit :=
  modify fun s => { s with heap := s.heap.setNext a none }

/-- `ast_free_stmt`, for a statement that has just been read. -/
def freeStmt (a : ℕ) : ModuleM Unit :=
  modify fun s => { s with heap := s.heap.free a }

/-- The statements of a list that is read from its head to its end. -/
def readList (list : LinkedList) : ModuleM (List (ℕ × StmtNode)) := do
  match (← get).heap.nodes list with
  | none => freedAccess
  | some nodes => return nodes

/-- `ast_free_stmt_list`. -/
def freeStmtList (list : LinkedList) : ModuleM Unit := do
  let nodes ← readList list
  modify fun s => { s with heap := s.heap.freeAll (nodes.map (·.1)) }

/-- A computation whose error is handled before it is passed on. -/
def onError (m : ModuleM α) (handler : ModuleM Unit) : ModuleM α :=
  ExceptT.mk fun s =>
    match m.run.run s with
    | (.error (.error e), t) => (handler >>= fun _ => fail e : ModuleM α).run.run t
    | outcome => outcome

/-- A call of `process_import_statement` that is recorded with its result. -/
def observe (call : ImportCall) (m : ModuleM Unit) : ModuleM Unit :=
  ExceptT.mk fun s =>
    match m.run.run s with
    | (r, t) => (r, { t with imports := { call with succeeded := r.isOk } :: t.imports })

end ModuleM

open ModuleM

/-! ### Symbols -/

/-- `register_function`. -/
def registerFunction (fn : Function) : ModuleM Bool := do
  let functions := (← get).functions
  if maxFunctions ≤ functions.length || functions.any (·.name == fn.name) then return false
  modify fun s => { s with functions := functions ++ [fn] }
  return true

/-- `<module>.<symbol>`. -/
def qualify (moduleName symbolName : Ident) : Ident :=
  moduleName ++ '.' :: symbolName

/-- `module_register_qualified_symbol`. -/
def moduleRegisterQualifiedSymbol (moduleName symbolName : Ident) (ptr : SymbolPtr) :
    ModuleM Unit := do
  if moduleName.isEmpty || symbolName.isEmpty then fail .invalidParameters
  else if !moduleIsValidIdentifier moduleName || !moduleIsValidIdentifier symbolName then
    fail (.invalidName moduleName symbolName)
  else if (← get).qualified.any (·.qualifiedName == qualify moduleName symbolName) then
    fail (.alreadyRegistered (qualify moduleName symbolName))
  else
    modify fun s =>
      { s with qualified := ⟨qualify moduleName symbolName, ptr⟩ :: s.qualified }

/-- `module_lookup_symbol`. -/
def moduleLookupSymbol (qualified : List QualifiedSymbol) (name : Ident) : Option SymbolPtr :=
  (qualified.find? (·.qualifiedName == name)).map (·.ptr)

/-- `module_find_export`. -/
def moduleFindExport (exports : List ModuleSymbol) (name : Ident) : Option ModuleSymbol :=
  exports.find? (·.name == name)

/-- `module_get_default_export`. -/
def moduleGetDefaultExport (exports : List ModuleSymbol) : Option ModuleSymbol :=
  exports.find? (·.isDefault)

/-- `module_add_export`. -/
def moduleAddExport (p : FilePath) (symbol : ModuleSymbol) : ModuleM Unit := do
  let m ← module p
  if (moduleFindExport m.exports symbol.name).isSome then fail (.alreadyExported symbol.name)
  else if symbol.isDefault && (moduleGetDefaultExport m.exports).isSome then
    fail .duplicateDefault
  else
    updateModule p fun m => { m with exports := symbol :: m.exports }

/-- The symbol an export means: a function, else a variable, else a class. -/
def ModuleState.exportedPtr (s : ModuleState) (name : Ident) : Option SymbolPtr :=
  if s.functions.any (·.name == name) then some (.function name)
  else if (getVariable s.scopes name).isSome then some (.variable name)
  else if s.classes.contains name then some (.class name)
  else none

/-- One symbol of `process_export_statement`. -/
def exportSymbol (p : FilePath) (isDefault : Bool) (symbol : Ident × Option Ident) :
    ModuleM Unit := do
  if !moduleIsValidIdentifier symbol.1 then fail (.invalidExportName symbol.1)
  match (← get).exportedPtr symbol.1 with
  | none => fail (.unknownSymbol symbol.1)
  | some ptr => moduleAddExport p ⟨symbol.1, symbol.2, ptr, isDefault⟩

/-- `process_export_statement`. -/
def processExportStatement (isDefault : Bool) (symbols : List (Ident × Option Ident))
    (p : FilePath) : ModuleM Unit := do
  if isDefault && symbols.length != 1 then fail .defaultExportCount
  symbols.forM (exportSymbol p isDefault)

/-- What `module_preprocess_stmt_list` does with the symbol of a default export. -/
def recordDefaultExport (p : FilePath) (name : Ident) : ModuleM Unit := do
  let m ← module p
  if m.defaultExportName.isSome then fail (.secondDefault m.name)
  updateModule p fun m => { m with defaultExportName := some name }
  match getVariable (← get).scopes name with
  | none => fail (.defaultNotVariable name)
  | some var =>
      let desc := TypeDescriptor.createPrimitive var.type
      updateModule p fun m =>
        { m with defaultExportType := var.type, defaultExportTypeDesc := desc }
      if desc.isNone then fail .defaultNoDescriptor

/-! ### Loading and compiling -/

section Pass

variable (env : ModuleEnv) (casts : NumericCasts)

/-- `module_load`. -/
def moduleLoad (path : FilePath) (currentFileDir : Option FilePath) : ModuleM FilePath := do
  let p ← ofResolved (env.moduleResolvePath path currentFileDir)
  modify (·.load p path)
  return p

/-- The list of statements that `ast_parse_program` builds. -/
def buildStmtList (file : SourceFile) (stmts : ASTStmtList) : ModuleM LinkedList :=
  stmts.zipIdx.foldlM (fun list (stmt, index) => do
    let a ← newStmt ⟨⟨file, index⟩, stmt⟩
    appendStmt list a) .empty

/-- The part of `module_compile` after the module has been marked as loading. -/
def compileFile (p : FilePath) : ModuleM Unit :=
  match (env.file p).join with
  | none => do
      updateModule p fun m => { m with isLoading := false }
      fail (.parseFailed p)
  | some stmts => do
      let ast ← buildStmtList (.module p) stmts
      updateModule p fun m => { m with ast := some ast, isCompiled := true, isLoading := false }

/-- `module_compile`. -/
def moduleCompile (p : FilePath) : ModuleM Unit := do
  let m ← module p
  if m.isCompiled then
    return ()
  else if m.isLoading then
    fail (.circularDependency m.name)
  else
    updateModule p fun m => { m with isLoading := true }
    compileFile env p

/-! ### Imports -/

/-- One symbol of a selective import. -/
def importSymbol (p : FilePath) (symbol : Ident × Option Ident) : ModuleM Unit := do
  let m ← module p
  match moduleFindExport m.exports symbol.1 with
  | none => fail (.notExported symbol.1 m.name)
  | some exported =>
      moduleRegisterQualifiedSymbol m.name (symbol.2.getD symbol.1) exported.ptr

/-- The symbols that an import registers. -/
def importSymbols (p : FilePath) (moduleAlias : Option Ident) (isSelective : Bool)
    (symbols : List (Ident × Option Ident)) : ModuleM Unit := do
  if isSelective then
    symbols.forM (importSymbol p)
  else
    let m ← module p
    m.exports.forM fun exported =>
      moduleRegisterQualifiedSymbol (moduleAlias.getD m.name) exported.name exported.ptr

/-- `process_import_statement`. -/
def processImportStatement (path : FilePath) (moduleAlias : Option Ident) (isSelective : Bool)
    (symbols : List (Ident × Option Ident)) (currentFileDir : Option FilePath) :
    ModuleM Unit := do
  let p ← moduleLoad env path currentFileDir
  moduleCompile env p
  let m ← module p
  let qualified := (← get).qualified
  observe ⟨p, moduleAlias, isSelective, symbols, m.isPreprocessed, m.exports, qualified, false⟩
    (importSymbols p moduleAlias isSelective symbols)

/-! ### Preprocessing -/

/-- One statement of `module_preprocess_stmt_list`; `recurse` is
`module_preprocess_module`. -/
def preprocessStmt (recurse : FilePath → ModuleM Unit) (p : FilePath) : ASTStmt → ModuleM Unit
  | .importStmt path moduleAlias isSelective symbols => do
      processImportStatement env path moduleAlias isSelective symbols (some (dirname p))
      let imported ← moduleLoad env path (some (dirname p))
      recurse imported
  | .exportStmt isDefault symbols => do
      processExportStatement isDefault symbols p
      match isDefault, symbols with
      | true, symbol :: _ => recordDefaultExport p symbol.1
      | _, _ => return
  | .funcDecl decl => do
      let registered ← registerFunction {
        name := decl.name
        params := decl.params.map fun param =>
          (param.name, param.typeDesc.elim .typeNil TypeDescriptor.baseType)
        returnType := decl.returnType
        body := decl.body }
      if !registered then fail (.functionNotRegistered decl.name)
  | .varDecl name type _ _ isConst => do
      let (declared, scopes) ←
        ofExec (breadVarDeclIfMissing casts (← get).scopes name type isConst none)
      modify fun s => { s with scopes }
      if !declared then fail (.variableNotDeclared name)
  | _ => return

/-- `module_preprocess_stmt_list`.  The statements are not changed while the list is
read. -/
def preprocessStmtList (recurse : FilePath → ModuleM Unit) (list : LinkedList) (p : FilePath) :
    ModuleM Unit := do
  let nodes ← readList list
  nodes.forM fun node => preprocessStmt env casts recurse p node.2.stmt

/-- `module_preprocess_module`, with a bound on the depth of the recursion. -/
def preprocessModule : ℕ → FilePath → ModuleM Unit
  | 0, _ => throw .diverges
  | n + 1, p => do
      let m ← module p
      if m.isPreprocessed then
        return ()
      else
        moduleCompile env p
        let m ← module p
        match m.ast with
        | none => fail (.noAst m.name)
        | some ast =>
            preprocessStmtList env casts (preprocessModule n) ast p
            updateModule p fun m => { m with isPreprocessed := true }

/-! ### The program -/

/-- One statement of `splice_module_into_program`. -/
def spliceStmt (program : LinkedList) (node : ℕ × StmtNode) : ModuleM LinkedList := do
  unlinkStmt node.1
  if node.2.isPlain then appendStmt program node.1
  else
    freeStmt node.1
    return program

/-- `splice_module_into_program`, for a module that has been preprocessed.  The `next`
pointer of a statement is read before the statement is moved. -/
def spliceModuleIntoProgram (program : LinkedList) (p : FilePath) : ModuleM LinkedList := do
  match (← module p).ast with
  | none => nullAccess
  | some ast =>
      let nodes ← readList ast
      let program ← nodes.foldlM spliceStmt program
      updateModule p fun m => { m with ast := some .empty, isIncluded := true }
      return program

/-- The module that an import of the program means, ready to be included: it has been
preprocessed, and has a default export. -/
def importModule (n : ℕ) (path : FilePath) : ModuleM (FilePath × Ident × TypeDescriptor) := do
  let p ← moduleLoad env path none
  preprocessModule env casts n p
  let m ← module p
  match m.defaultExportName, m.defaultExportTypeDesc with
  | some name, some desc => return (p, name, desc)
  | _, _ => fail (.noDefaultExport m.name)

/-- The constant that an import of the program with an alias declares. -/
def aliasDecl (loc : SourceLoc) (importAlias : Ident) (type : VarType) (name : Ident)
    (desc : TypeDescriptor) : StmtNode :=
  ⟨loc, .varDecl importAlias type (some desc) (.var name) true⟩

/-- A module is spliced into the program once. -/
def includeOnce (out : LinkedList) (p : FilePath) (isIncluded : Bool) : ModuleM LinkedList :=
  if isIncluded then pure out else spliceModuleIntoProgram out p

/-- The constant of an import that has an alias is declared. -/
def declareAlias (out : LinkedList) (loc : SourceLoc) (importAlias : Option Ident)
    (type : VarType) (name : Ident) (desc : TypeDescriptor) : ModuleM LinkedList :=
  match importAlias with
  | none => pure out
  | some importAlias => do
      let decl ← newStmt (aliasDecl loc importAlias type name desc)
      appendStmt out decl

/-- An import of the program, which is removed. -/
def includeImport (n : ℕ) (out : LinkedList) (a : ℕ) (loc : SourceLoc) (path : FilePath)
    (importAlias : Option Ident) : ModuleM LinkedList := do
  let (p, name, desc) ← onError (importModule env casts n path) do
    freeStmt a
    freeStmtList out
  let m ← module p
  let out ← includeOnce out p m.isIncluded
  let out ← declareAlias out loc importAlias m.defaultExportType name desc
  freeStmt a
  return out

/-- A statement of the program that has been unlinked: it is removed or moved to the new
list. -/
def moveStmt (n : ℕ) (out : LinkedList) (a : ℕ) (node : StmtNode) : ModuleM LinkedList :=
  match node.stmt with
  | .importStmt path importAlias _ _ => includeImport env casts n out a node.loc path importAlias
  | .exportStmt _ _ => do
      freeStmt a
      return out
  | _ => appendStmt out a

/-- One turn of the loop of `module_preprocess_program`: the statement to go on with, and
the list so far. -/
def preprocessProgramTurn (n : ℕ) (x : Option ℕ × LinkedList) :
    ModuleM ((Option ℕ × LinkedList) ⊕ LinkedList) := do
  match x.1 with
  | none => return .inr x.2
  | some a =>
      let node ← readStmt a
      unlinkStmt a
      let out ← moveStmt env casts n x.2 a node.val
      return .inl (node.next, out)

/-- `module_preprocess_program`: the new head and tail of the program.  When it fails,
those of the argument stay. -/
def modulePreprocessProgram (n : ℕ) (program : LinkedList) : ModuleM LinkedList :=
  Stateful.loop .diverges (preprocessProgramTurn env casts n) n (program.head, .empty)

/-- What `main` does with the statements of the entry file. -/
def preprocessEntry (n : ℕ) (stmts : ASTStmtList) : ModuleM LinkedList := do
  let program ← buildStmtList .entry stmts
  modulePreprocessProgram env casts n program

end Pass

end BreadLang
