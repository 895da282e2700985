import BreadLang.Compiler.Ast
import Mathlib.Data.List.DropRight

/-!
# Paths of modules

How `module.c` gets from the path in an `import` to the file it means: the path
itself when it is absolute, else one in the directory of the importing file, else
one in a search path, each with and without the extension.

The file system does not change while the modules are processed.  It is a finite
map from paths to what the parser makes of the files: a list of statements, or
nothing for a file that cannot be read or parsed.
-/

namespace BreadLang

/-- A path in the file system. -/
abbrev FilePath := List Char

/-- `MODULE_EXTENSION`. -/
def moduleExtension : FilePath := ".bread".toList

/-- `MODULE_MAX_PATH_LENGTH`. -/
def moduleMaxPathLength : ℕ := 4096

/-- What module resolution depends on: the files, and the search paths of the
registry. -/
structure ModuleEnv where
  files : List (FilePath × Option ASTStmtList)
  searchPaths : List FilePath

/-- The errors of `module_set_error`, with the arguments of their messages. -/
inductive ModuleError where
  | fileNotFound (path : FilePath)
  | pathTooLong
  | circularDependency (module : Ident)
  | parseFailed (path : FilePath)
  | noAst (module : Ident)
  | notExported (symbol module : Ident)
  | invalidParameters
  | invalidName (module symbol : Ident)
  | alreadyRegistered (qualified : Ident)
  | defaultExportCount
  | invalidExportName (symbol : Ident)
  | unknownSymbol (symbol : Ident)
  | alreadyExported (symbol : Ident)
  | duplicateDefault
  | secondDefault (module : Ident)
  | defaultNotVariable (symbol : Ident)
  | defaultNoDescriptor
  | functionNotRegistered (name : Ident)
  | variableNotDeclared (name : Ident)
  | noDefaultExport (module : Ident)
  deriving DecidableEq

/-- The text of a module error. -/
def ModuleError.message : ModuleError → String
  | .fileNotFound path => "Module file not found: " ++ .ofList path
  | .pathTooLong => "Path too long"
  | .circularDependency module =>
      "Circular dependency detected for module '" ++ .ofList module ++ "'"
  | .parseFailed path => "Failed to parse module: " ++ .ofList path
  | .noAst module => "Module has no AST: " ++ .ofList module
  | .notExported symbol module =>
      "Symbol '" ++ .ofList symbol ++ "' is not exported by module '" ++ .ofList module ++ "'"
  | .invalidParameters => "Invalid parameters for module_register_qualified_symbol"
  | .invalidName module symbol =>
      "Invalid module or symbol name: '" ++ .ofList module ++ "." ++ .ofList symbol ++ "'"
  | .alreadyRegistered qualified =>
      "Qualified symbol already registered: " ++ .ofList qualified
  | .defaultExportCount => "Default export must specify exactly one symbol"
  | .invalidExportName symbol => "Invalid symbol name for export: '" ++ .ofList symbol ++ "'"
  | .unknownSymbol symbol => "Cannot export unknown symbol '" ++ .ofList symbol ++ "'"
  | .alreadyExported symbol => "Symbol '" ++ .ofList symbol ++ "' is already exported"
  | .duplicateDefault => "Module already has a default export"
  | .secondDefault module => "Module '" ++ .ofList module ++ "' already has a default export"
  | .defaultNotVariable symbol =>
      "Default export '" ++ .ofList symbol ++ "' must be a global variable"
  | .defaultNoDescriptor => "Failed to create type descriptor for default export"
  | .functionNotRegistered name => "Failed to register function '" ++ .ofList name ++ "'"
  | .variableNotDeclared name => "Failed to declare variable '" ++ .ofList name ++ "'"
  | .noDefaultExport module => "Module '" ++ .ofList module ++ "' has no default export"

/-! ### Directories and names -/

/-- `dirname`. -/
def dirname (path : FilePath) : FilePath :=
  if path = [] then ['.']
  else if path.rdropWhile (· == '/') = [] then ['/']
  else
    let parent := (path.rdropWhile (· == '/')).rdropWhile (· != '/')
    if parent = [] then ['.']
    else if parent.rdropWhile (· == '/') = [] then ['/']
    else parent.rdropWhile (· == '/')

/-- `basename`. -/
def basename (path : FilePath) : FilePath :=
  if path = [] then ['.']
  else if path.rdropWhile (· == '/') = [] then ['/']
  else (path.rdropWhile (· == '/')).rtakeWhile (· != '/')

/-- `module_get_name_from_path`. -/
def moduleGetNameFromPath (path : FilePath) : Ident :=
  if moduleExtension <:+ basename path then
    (basename path).take ((basename path).length - moduleExtension.length)
  else
    basename path

/-- `module_is_valid_identifier`. -/
def moduleIsValidIdentifier : Ident → Bool
  | [] => false
  | c :: name => (c.isAlpha || c == '_') && name.all fun c => c.isAlphanum || c == '_'

/-! ### Resolution -/

namespace ModuleEnv

variable (env : ModuleEnv)

/-- What is stored under a path. -/
def file (path : FilePath) : Option (Option ASTStmtList) :=
  (env.files.find? (·.1 == path)).map (·.2)

/-- `file_exists_and_regular`. -/
def fileExistsAndRegular (path : FilePath) : Bool :=
  (env.file path).isSome

/-- `try_path_with_extension`. -/
def tryPathWithExtension (base : FilePath) : Option FilePath :=
  if env.fileExistsAndRegular base then some base
  else if env.fileExistsAndRegular (base ++ moduleExtension) then some (base ++ moduleExtension)
  else none

/-- The search for a path in a list of directories; a path that is too long for the
buffer is passed over. -/
def trySearchPaths (path : FilePath) : List FilePath → Option FilePath
  | [] => none
  | dir :: dirs =>
      if moduleMaxPathLength ≤ (dir ++ '/' :: path).length then trySearchPaths path dirs
      else
        match env.tryPathWithExtension (dir ++ '/' :: path) with
        | some resolved => some resolved
        | none => trySearchPaths path dirs

/-- The part of `module_resolve_path` after the directory of the importing file. -/
def resolveInSearchPaths (path : FilePath) : Except ModuleError FilePath :=
  match env.trySearchPaths path env.searchPaths with
  | some resolved => .ok resolved
  | none => .error (.fileNotFound path)

/-- `module_resolve_path`. -/
def moduleResolvePath (path : FilePath) (currentFileDir : Option FilePath) :
    Except ModuleError FilePath :=
  if path.head? = some '/' then
    match env.tryPathWithExtension path with
    | some resolved => .ok resolved
    | none => .error (.fileNotFound path)
  else
    match currentFileDir with
    | none => env.resolveInSearchPaths path
    | some dir =>
        if moduleMaxPathLength ≤ (dir ++ '/' :: path).length then .error .pathTooLong
        else
          match env.tryPathWithExtension (dir ++ '/' :: path) with
          | some resolved => .ok resolved
          | none => env.resolveInSearchPaths path

end ModuleEnv

end BreadLang
