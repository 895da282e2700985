import BreadLang.Compiler.ExprParser

/-!
# Parsing statements

`ast_stmt_parser.c` and `ast_parse_program`.  `parse_stmt` is one function of
the C code; here each of its cases is a function, and `parseStmt` chooses among
them in the order of the C code.
-/

namespace BreadLang

open Parse

/-! ### Blocks -/

/-- A turn of the loop of `parse_block`. -/
def blockTurn (p : Parser) (list : ASTStmtList) : Parse (ASTStmtList ⊕ ASTStmtList) := do
  match ← peek with
  | none | some '}' => return .inr list
  | some _ =>
      skipWhitespace
      if (← peek) == some '}' then return .inr list
      else return .inl (list ++ [← p.stmt])

/-- `parse_block`. -/
def parseBlock (p : Parser) : Parse ASTStmtList :=
  whileLoop (blockTurn p) []

/-- The body of a function: the result of `parse_block` is tested. -/
def parseFunctionBody (p : Parser) : Parse ASTStmtList := do
  expect '{'
  let body ← parseBlock p
  expect '}'
  return body

/-- The body of an `if`, an `else`, a `while` or a `for`: only the character behind
the block is tested. -/
def parseBody (p : Parser) : Parse (Option ASTStmtList) := do
  expect '{'
  let body ← testNull (parseBlock p)
  expect '}'
  if body.isNone then record .bodyLost
  return body

/-! ### Modules -/

/-- The name after `as `, if there is one. -/
def parseAlias : Parse (Option Ident) := do
  if ← looksAt "as ".toList then
    advance 3
    skipWhitespace
    return some (← identifier)
  else
    return none

/-- A turn of the loop over the symbols of an import or export. -/
def symbolTurn (symbols : List (Ident × Option Ident)) :
    Parse (List (Ident × Option Ident) ⊕ List (Ident × Option Ident)) := do
  match ← peek with
  | none | some '}' => return .inr symbols
  | some _ =>
      skipWhitespace
      if (← peek) == some '}' then return .inr symbols
      else
        let name ← identifier
        skipWhitespace
        let symbolAlias ← parseAlias
        skipWhitespace
        if (← peek) == some ',' then
          advance 1
          skipWhitespace
        return .inl (symbols ++ [(name, symbolAlias)])

/-- The symbols of an import or export, in braces. -/
def parseSymbols : Parse (List (Ident × Option Ident)) := do
  expect '{'
  skipWhitespace
  let symbols ← whileLoop symbolTurn []
  expect '}'
  return symbols

/-- The symbols of a selective import, and `from `. -/
def parseImportedSymbols : Parse (List (Ident × Option Ident)) := do
  let symbols ← parseSymbols
  skipWhitespace
  if ← looksAt "from ".toList then
    advance 5
    skipWhitespace
    return symbols
  else
    null

/-- The symbols of an import, if it is selective. -/
def parseSelection (isSelective : Bool) : Parse (List (Ident × Option Ident)) :=
  if isSelective then parseImportedSymbols else pure []

/-- The name of an imported module, if the import is not selective. -/
def parseModuleAlias (isSelective : Bool) : Parse (Option Ident) :=
  if isSelective then pure none else parseAlias

/-- The import case of `parse_stmt`. -/
def parseImport : Parse ASTStmt := do
  advance 7
  skipWhitespace
  let isSelective := (← peek) == some '{'
  let symbols ← parseSelection isSelective
  expect '"'
  let modulePath ← takeChars (· != '"')
  expect '"'
  skipWhitespace
  let moduleAlias ← parseModuleAlias isSelective
  return .importStmt modulePath moduleAlias isSelective symbols

/-- The export case of `parse_stmt`. -/
def parseExport : Parse ASTStmt := do
  advance 7
  skipWhitespace
  if ← looksAt "default ".toList then
    advance 8
    skipWhitespace
    return .exportStmt true [(← identifier, none)]
  else
    return .exportStmt false (← parseSymbols)

/-! ### Functions -/

/-- The default value of a parameter, if there is one. -/
def parseDefault (p : Parser) : Parse ASTExpr := do
  skipWhitespace
  if (← peek) == some '=' then
    advance 1
    skipWhitespace
    parseExpressionStr p
  else
    return .null

/-- A name, a colon and a type. -/
def parseTypedName (p : Parser) : Parse (Ident × TypeDescriptor) := do
  let name ← identifier
  skipWhitespace
  expect ':'
  return (name, ← p.typeDescriptor)

/-- A turn of the loop over the parameters. -/
def paramTurn (p : Parser) (params : List ASTParam) :
    Parse (List ASTParam ⊕ List ASTParam) := do
  if (← peek).isNone then return .inr params
  else
    skipWhitespace
    let (name, type) ← parseTypedName p
    let default ← parseDefault p
    skipWhitespace
    if (← peek) == some ',' then
      advance 1
      return .inl (params ++ [⟨name, some type, default⟩])
    else
      return .inr (params ++ [⟨name, some type, default⟩])

/-- The parameters of a function, up to the closing parenthesis. -/
def parseParamList (p : Parser) : Parse (List ASTParam) := do
  if (← peek) == some ')' then return [] else whileLoop (paramTurn p) []

/-- The parameters of a function, in parentheses. -/
def parseParams (p : Parser) : Parse (List ASTParam) := do
  expect '('
  skipWhitespace
  let params ← parseParamList p
  skipWhitespace
  expect ')'
  return params

/-- Whether `->` stands at the pointer. -/
def looksAtArrow : Parse Bool :=
  looksAt "->".toList

/-- The return type of a function; it is `Nil` where none is given. -/
def parseReturnType (p : Parser) : Parse TypeDescriptor := do
  skipWhitespace
  if ← looksAtArrow then
    advance 2
    p.typeDescriptor
  else
    return .nil

/-- The function case of `parse_stmt`. -/
def parseFuncDecl (p : Parser) : Parse FuncDecl := do
  advance 4
  skipWhitespace
  let name ← identifier
  skipWhitespace
  let params ← parseParams p
  let returnType ← parseReturnType p
  -- A second return type is refused.
  if ← looksAtArrow then null
  else
    skipWhitespace
    let body ← parseFunctionBody p
    return ⟨name, params, returnType.baseType, some returnType, some body⟩

/-! ### Structs and classes -/

/-- A turn of the loop over the fields of a struct.  The line break that the C code
tests for after `skip_whitespace` cannot be there. -/
def structFieldTurn (p : Parser) (fields : List (Ident × TypeDescriptor)) :
    Parse (List (Ident × TypeDescriptor) ⊕ List (Ident × TypeDescriptor)) := do
  match ← peek with
  | none | some '}' => return .inr fields
  | some _ =>
      skipWhitespace
      if (← peek) == some '}' then return .inr fields
      else
        let field ← parseTypedName p
        skipWhitespace
        return .inl (fields ++ [field])

/-- The struct case of `parse_stmt`. -/
def parseStructDecl (p : Parser) : Parse ASTStmt := do
  advance 7
  skipWhitespace
  let name ← identifier
  skipWhitespace
  expect '{'
  skipWhitespace
  let fields ← whileLoop (structFieldTurn p) []
  expect '}'
  return .structDecl name fields

/-- What the loop of the class case has collected. -/
structure ClassMembers where
  fields : List (Ident × TypeDescriptor)
  methods : List FuncDecl
  constructor : Option FuncDecl

/-- A constructor that starts with `init(`. -/
def parseConstructor (p : Parser) : Parse FuncDecl := do
  advance 4
  skipWhitespace
  let params ← parseParams p
  skipWhitespace
  let body ← parseFunctionBody p
  return ⟨"init".toList, params, .typeNil, some .nil, some body⟩

/-- A method. -/
def parseMethod (p : Parser) : Parse FuncDecl := do
  advance 4
  skipWhitespace
  let name ← identifier
  skipWhitespace
  let params ← parseParams p
  let returnType ← parseReturnType p
  skipWhitespace
  let body ← parseFunctionBody p
  return ⟨name, params, returnType.baseType, some returnType, some body⟩

/-- A method of that name is the constructor, and there must not be another one
before it. -/
def addMethod (members : ClassMembers) (method : FuncDecl) : Parse ClassMembers :=
  if method.name == "init".toList then
    if members.constructor.isSome then null
    else return { members with constructor := some method }
  else
    return { members with methods := members.methods ++ [method] }

/-- A member of a class.  A constructor replaces the one before it. -/
def parseClassMember (p : Parser) (members : ClassMembers) : Parse ClassMembers := do
  if ← looksAt "init(".toList then
    return { members with constructor := some (← parseConstructor p) }
  else if ← looksAt "def ".toList then
    addMethod members (← parseMethod p)
  else
    return { members with fields := members.fields ++ [← parseTypedName p] }

/-- A turn of the loop over the members of a class, with the same test of a line
break. -/
def classTurn (p : Parser) (members : ClassMembers) :
    Parse (ClassMembers ⊕ ClassMembers) := do
  match ← peek with
  | none | some '}' => return .inr members
  | some _ =>
      skipWhitespace
      if (← peek) == some '}' then return .inr members
      else
        let members ← parseClassMember p members
        skipWhitespace
        return .inl members

/-- The parent of a class, if there is one. -/
def parseParentName : Parse (Option Ident) := do
  if ← looksAt "extends ".toList then
    advance 8
    skipWhitespace
    let name ← identifier
    skipWhitespace
    return some name
  else
    return none

/-- The class case of `parse_stmt`. -/
def parseClassDecl (p : Parser) : Parse ASTStmt := do
  advance 6
  skipWhitespace
  let name ← identifier
  skipWhitespace
  let parentName ← parseParentName
  expect '{'
  skipWhitespace
  let members ← whileLoop (classTurn p) ⟨[], [], none⟩
  expect '}'
  -- A class must have a constructor.
  if members.constructor.isNone then null
  else return .classDecl name parentName members.fields members.methods members.constructor

/-! ### Simple statements -/

/-- The end of a `return` or `print`, where blanks and then the end of the line, of
the statement or of the block follow: the line break or `;` is skipped too. -/
def endsStatement (text : List Char) : Bool :=
  match (text.dropWhile isBlank).head? with
  | none => true
  | some c => c == '\n' || c == '}' || c == ';'

/-- The pointer is advanced over the blanks, and over a line break or `;`. -/
def skipStatementEnd : Parse Unit := do
  let _ ← takeChars isBlank
  match ← peek with
  | some '\n' | some ';' => advance 1
  | _ => return

/-- The return case of `parse_stmt`. -/
def parseReturn (p : Parser) : Parse ASTStmt := do
  advance 6
  skipWhitespace
  let e ← parseExpressionStr p
  if endsStatement (← text) then skipStatementEnd
  return .return e none

/-- The type of a declared variable, if it is given. -/
def parseDeclaredType (p : Parser) : Parse (Option TypeDescriptor) := do
  if (← peek) == some ':' then
    advance 1
    return some (← p.typeDescriptor)
  else
    return none

/-- The variable declaration case of `parse_stmt`. -/
def parseVarDecl (p : Parser) (isConst : Bool) : Parse ASTStmt := do
  advance (if isConst then 6 else 4)
  skipWhitespace
  let name ← identifier
  skipWhitespace
  let typeDesc ← parseDeclaredType p
  skipWhitespace
  expect '='
  skipWhitespace
  let init ← parseExpressionStr p
  return .varDecl name ((typeDesc.map TypeDescriptor.baseType).getD .typeNil) typeDesc init isConst

/-- The print case of `parse_stmt`.  The expression is not tested for `NULL`. -/
def parsePrint (p : Parser) : Parse ASTStmt := do
  advance 6
  let e ← testNull (parseExpressionStr p)
  if (← peek) == some ')' then advance 1
  if endsStatement (← text) then
    skipStatementEnd
    return .print (e.getD .null)
  else
    null

/-! ### Conditionals and loops -/

/-- The `else` of an `if`: another `if`, or a block. -/
def parseElse (p : Parser) : Parse (Option ASTStmtList) := do
  skipWhitespace
  if ← looksAt "else ".toList then
    advance 5
    skipWhitespace
    if ← looksAt "if ".toList then
      return some [← p.stmt]
    else
      parseBody p
  else
    return none

/-- The if case of `parse_stmt`. -/
def parseIf (p : Parser) : Parse ASTStmt := do
  advance 3
  skipWhitespace
  let condition ← parseExpressionStr p
  skipWhitespace
  let thenBranch ← parseBody p
  let elseBranch ← parseElse p
  return .ifStmt condition thenBranch elseBranch

/-- The while case of `parse_stmt`. -/
def parseWhile (p : Parser) : Parse ASTStmt := do
  advance 6
  skipWhitespace
  let condition ← parseExpressionStr p
  skipWhitespace
  let body ← parseBody p
  return .whileStmt condition body

/-- The for case of `parse_stmt`. -/
def parseFor (p : Parser) : Parse ASTStmt := do
  advance 4
  skipWhitespace
  let name ← takeChars fun c => c != ' ' && c != '\t'
  if name.isEmpty then null
  else
    skipWhitespace
    if ← looksAt "in ".toList then
      advance 3
      skipWhitespace
      let iterable ← parseExpressionStr p
      skipWhitespace
      let body ← parseBody p
      return .forIn name iterable body
    else
      null

/-! ### Assignments -/

/-- The counters of the scan for an assignment operator. -/
structure AssignScan where
  parens : ℕ
  brackets : ℕ
  braces : ℕ
  inString : Bool
  escape : Bool

namespace AssignScan

/-- The counters at the start. -/
def start : AssignScan := ⟨0, 0, 0, false, false⟩

/-- The counters after a character of a string. -/
def stringStep (x : AssignScan) (c : Char) : AssignScan :=
  if x.escape then { x with escape := false }
  else if c == '\\' then { x with escape := true }
  else if c == '"' then { x with inString := false }
  else x

/-- The counters after a bracket, if the character is one. -/
def bracketStep (x : AssignScan) (c : Char) : AssignScan :=
  match c with
  | '(' => { x with parens := x.parens + 1 }
  | ')' => { x with parens := x.parens - 1 }
  | '[' => { x with brackets := x.brackets + 1 }
  | ']' => { x with brackets := x.brackets - 1 }
  | '{' => { x with braces := x.braces + 1 }
  | '}' => { x with braces := x.braces - 1 }
  | _ => x

/-- Outside of all brackets. -/
def atTop (x : AssignScan) : Bool :=
  x.parens == 0 && x.brackets == 0 && x.braces == 0

end AssignScan

/-- What a scan for an assignment operator finds at a character outside of all
brackets: the operator, the end of the statement, or nothing. -/
inductive ScanStop where
  | assign (op : Option Char)
  | ends
  | goesOn

/-- The tests of the scan outside of all brackets. -/
def scanStop (c : Char) (next : Option Char) : ScanStop :=
  if c == '=' && next != some '=' then .assign none
  else if (c == '+' || c == '-' || c == '*' || c == '/' || c == '%') && next == some '=' then
    .assign (some c)
  else if c == '\n' || c == ';' then .ends
  else .goesOn

/-- The scan of `parse_stmt` for an assignment operator: the text before it and the
operator. -/
def scanAssign (x : AssignScan) : List Char → Option (List Char × Option Char)
  | [] => none
  | c :: text =>
      let continued (y : AssignScan) :=
        (scanAssign y text).map fun (before, op) => (c :: before, op)
      if x.inString then continued (x.stringStep c)
      else if c == '"' then continued { x with inString := true }
      else if c == '}' && x.braces == 0 then none
      else
        let y := x.bracketStep c
        if y.atTop then
          match scanStop c text.head? with
          | .assign op => some ([], op)
          | .ends => none
          | .goesOn => continued y
        else continued y

/-- The statement for an assignment, by what its left side parses to. -/
def assignTo (name : Ident) (op : Option Char) (value : ASTExpr) : ASTExpr → ASTStmt
  | .index target index =>
      if target.isNull || index.isNull then .varAssign name value op
      else .indexAssign target index value op
  | .member target member _ =>
      if target.isNull then .varAssign name value op
      else .memberAssign target member value op
  | _ => .varAssign name value op

/-- The left side of an assignment, parsed as an expression where it contains a
bracket, and else where it contains a dot. -/
def parseAssignTarget (p : Parser) (name : Ident) : Parse ASTExpr := do
  if '[' ∈ name then
    match ← testNull (onText name (parseExpressionStr p)) with
    | some (.index target index) => return .index target index
    | _ => return .null
  else if '.' ∈ name then
    match ← testNull (onText name (parseExpressionStr p)) with
    | some (.member target member isOptionalChain) =>
        return .member target member isOptionalChain
    | _ => return .null
  else
    return .null

/-- The assignment case of `parse_stmt`, after the text before the operator. -/
def parseAssign (p : Parser) (before : List Char) (op : Option Char) : Parse ASTStmt := do
  advance before.length
  let name := trimSpace before
  let target ← parseAssignTarget p name
  advance (if op.isSome then 2 else 1)
  skipWhitespace
  let value ← parseExpressionStr p
  return assignTo name op value target

/-- The end of `parse_stmt`: an assignment or an expression. -/
def parseAssignOrExpr (p : Parser) : Parse ASTStmt := do
  match scanAssign .start (← text) with
  | some (before, op) => parseAssign p before op
  | none => return .expr (← parseExpressionStr p)

/-! ### Statements -/

/-- Whether a word stands at the pointer that no letter or digit follows. -/
def looksAtWord (word : List Char) : Parse Bool := do
  let source ← text
  return word.isPrefixOf source && !(source.drop word.length).head?.any Char.isAlphanum

/-- `parse_stmt`. -/
def parseStmt (p : Parser) : Parse ASTStmt := do
  skipWhitespace
  if ← looksAt "import ".toList then parseImport
  else if ← looksAt "export ".toList then parseExport
  else if ← looksAt "def ".toList then return .funcDecl (← parseFuncDecl p)
  else if ← looksAtWord "return".toList then parseReturn p
  else if ← looksAt "struct ".toList then parseStructDecl p
  else if ← looksAt "class ".toList then parseClassDecl p
  else if ← looksAt "let ".toList then parseVarDecl p false
  else if ← looksAt "var ".toList then parseVarDecl p false
  else if ← looksAt "const ".toList then parseVarDecl p true
  else if ← looksAt "print(".toList then parsePrint p
  else if ← looksAt "if ".toList then parseIf p
  else if ← looksAt "while ".toList then parseWhile p
  else if ← looksAt "for ".toList then parseFor p
  else if ← looksAtWord "break".toList then
    advance 5
    return .break
  else if ← looksAtWord "continue".toList then
    advance 8
    return .continue
  else
    parseAssignOrExpr p

/-- A call of `parse_stmt`: a return of `NULL` is recorded. -/
def recordFailure (m : Parse ASTStmt) : Parse ASTStmt := do
  match ← testNull m with
  | some s => return s
  | none =>
      record .stmtFailed
      null

/-- The functions of the parser, `n` calls away from running out of stack. -/
def parser (conversions : Conversions) : ℕ → Parser
  | 0 =>
      { conversions
        typeDescriptor := throw .diverges
        expression := throw .diverges
        unary := throw .diverges
        stmt := throw .diverges }
  | n + 1 =>
      { conversions
        typeDescriptor := parseTypeDescriptor (parser conversions n)
        expression := parseLogicalOr (parser conversions n)
        unary := parseUnary (parser conversions n)
        stmt := recordFailure (parseStmt (parser conversions n)) }

/-! ### Programs -/

/-- A statement of the program, in the loop of `ast_parse_program`. -/
def parseTopLevel (p : Parser) (list : ASTStmtList) : Parse ASTStmtList := do
  match ← testNull p.stmt with
  | none =>
      if (← get).error.isNone then setError .parseError "Failed to parse statement"
      null
  | some s =>
      skipWhitespace
      if (← peek) == some ';' then advance 1
      if (← get).compilationFailed then null else return list ++ [s]

/-- A turn of the loop of `ast_parse_program`.  After `skip_whitespace` neither a
comment nor a line break can stand at the pointer, so of the tests before the
call of `parse_stmt` the one for `;` is left. -/
def programTurn (p : Parser) (list : ASTStmtList) : Parse (ASTStmtList ⊕ ASTStmtList) := do
  skipWhitespace
  match ← peek with
  | none => return .inr list
  | some ';' =>
      advance 1
      return .inl list
  | some _ => return .inl (← parseTopLevel p list)

/-- `ast_parse_program`. -/
def astParseProgram (p : Parser) : Parse ASTStmtList :=
  whileLoop (programTurn p) []

/-- The state in which a program is parsed.  An error that was set before stays the
current one. -/
def ParseState.init (code : List Char) (error : Option BreadError) : ParseState where
  rest := code
  error := error
  compilationFailed := false
  trace := []
  pastEnd := false

end BreadLang
