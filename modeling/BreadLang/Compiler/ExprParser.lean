import BreadLang.Compiler.Lexical

/-!
# Parsing types and expressions

`ast_types.c` and `ast_expr_parser.c`.  The functions call each other; the calls
that go back to the start of the grammar go through a `Parser`, and `parser n`
is the one that is `n` such calls away from running out of stack.  It is defined
where the statements are.

`atoi` and `strtod` are those of the C library.  `atoi` is not defined where its
result does not fit an `int`, and `strtod` is rounding; a `Conversions` says what
they return.
-/

namespace BreadLang

/-- What the C library makes of the digits of a number. -/
structure Conversions where
  /-- `atoi` of a number that is no `int`. -/
  atoiOverflow : List Char → BreadInt
  strtod : List Char → DoubleBits

/-- The functions of the parser, as they call each other. -/
structure Parser where
  conversions : Conversions
  /-- `parse_type_descriptor`. -/
  typeDescriptor : Parse TypeDescriptor
  /-- `parse_expression`. -/
  expression : Parse ASTExpr
  /-- `parse_unary`. -/
  unary : Parse ASTExpr
  /-- `parse_stmt`. -/
  stmt : Parse ASTStmt

open Parse

/-- `MAX_TOKEN_LEN`. -/
def maxTokenLen : ℕ := 1024

/-! ### Types -/

/-- `type_name_to_vartype`, and the descriptor that is made of it: a name that is
not that of a type is one of a struct. -/
def typeOfName (name : Ident) : TypeDescriptor :=
  if name == "Int".toList then .int
  else if name == "String".toList then .string
  else if name == "Bool".toList then .bool
  else if name == "Float".toList then .float
  else if name == "Double".toList then .double
  else if name == "Nil".toList then .nil
  else .struct name []

/-- The bracket case of `parse_type_descriptor`. -/
def parseBracketType (p : Parser) : Parse TypeDescriptor := do
  advance 1
  let first ← p.typeDescriptor
  skipTypeWhitespace
  if (← peek) == some ':' then
    advance 1
    let second ← p.typeDescriptor
    skipTypeWhitespace
    expect ']'
    return .dict first second
  else
    expect ']'
    return .array first

/-- The name case of `parse_type_descriptor`. -/
def parseNamedType : Parse TypeDescriptor := do
  let name ← takeChars isIdentChar
  if name.length ≥ maxTokenLen then null else return typeOfName name

/-- The type before the `?`, by its first character. -/
def parseBaseType (p : Parser) (first : Option Char) : Parse TypeDescriptor :=
  match first with
  | none => null
  | some c =>
      if c == '[' then parseBracketType p
      else if isIdentStart c then parseNamedType
      else null

/-- `parse_type_descriptor`. -/
def parseTypeDescriptor (p : Parser) : Parse TypeDescriptor := do
  skipTypeWhitespace
  let type ← parseBaseType p (← peek)
  skipTypeWhitespace
  if (← peek) == some '?' then
    advance 1
    return .optional type
  else
    return type

/-! ### Numbers and strings -/

/-- The value of a string of digits. -/
def digitsValue (digits : List Char) : ℕ :=
  digits.foldl (fun n c => 10 * n + (c.toNat - '0'.toNat)) 0

/-- `atoi`, on digits. -/
def atoi (conversions : Conversions) (digits : List Char) : BreadInt :=
  if (digitsValue digits : ℤ) ≤ intMax then .wrap (digitsValue digits)
  else conversions.atoiOverflow digits

/-- The scan of `parse_number`: digits, and one dot. -/
def numberLength (hasDot : Bool) : List Char → ℕ
  | [] => 0
  | c :: text =>
      if c.isDigit then numberLength hasDot text + 1
      else if c == '.' && !hasDot then numberLength true text + 1
      else 0

/-- The node for the characters of a number. -/
def numberNode (p : Parser) (digits : List Char) : Parse ASTExpr :=
  if digits.length ≥ maxTokenLen then syntaxError "Number too long"
  else if '.' ∈ digits then return .double (p.conversions.strtod digits)
  else return .int (atoi p.conversions digits)

/-- `parse_number`. -/
def parseNumber (p : Parser) : Parse ASTExpr := do
  let source ← text
  let digits := source.take (numberLength false source)
  advance digits.length
  if digits.isEmpty then null else numberNode p digits

/-- The characters that stand for an escape sequence. -/
def unescape (c : Char) : List Char :=
  match c with
  | 'n' => ['\n']
  | 't' => ['\t']
  | 'r' => ['\r']
  | 'b' => ['\x08']
  | 'f' => ['\x0c']
  | '"' => ['"']
  | '\\' => ['\\']
  | '/' => ['/']
  | '(' => ['(']
  | c => ['\\', c]

/-- The string so far, and one more piece. -/
def concatenate : Option ASTExpr → ASTExpr → ASTExpr
  | some e, piece => .binary '+' e piece
  | none, piece => piece

/-- The buffer of `parse_string_literal` becomes a piece, if it is not empty. -/
def flushSegment (segment : BreadString) (result : Option ASTExpr) : Option ASTExpr :=
  if segment.isEmpty then result else some (concatenate result (.stringLiteral segment))

/-- The interpolation in the loop of `parse_string_literal`. -/
def parseInterpolation (p : Parser) (result : Option ASTExpr) : Parse ASTExpr := do
  advance 2
  let e ← p.expression
  skipWhitespace
  require ')' "Missing closing ')' in string interpolation"
  return concatenate result (.call "str".toList [e])

/-- A turn of the loop of `parse_string_literal`: the buffer and the pieces before
it. -/
def stringTurn (p : Parser) (s : BreadString × Option ASTExpr) :
    Parse ((BreadString × Option ASTExpr) ⊕ (BreadString × Option ASTExpr)) := do
  match ← text with
  | [] => return .inr s
  | '"' :: _ => return .inr s
  | '\\' :: '(' :: _ =>
      let result ← parseInterpolation p (flushSegment s.1 s.2)
      return .inl ([], some result)
  | '\\' :: c :: _ =>
      advance 2
      return .inl (s.1 ++ unescape c, s.2)
  | c :: _ =>
      advance 1
      return .inl (s.1 ++ [c], s.2)

/-- `parse_string_literal`. -/
def parseStringLiteral (p : Parser) : Parse ASTExpr := do
  advance 1
  let (segment, result) ← whileLoop (stringTurn p) ([], none)
  require '"' "Unterminated string literal"
  match result with
  | none => return .stringLiteral segment
  | some e => return (flushSegment segment (some e)).getD e

/-! ### Lists -/

/-- A turn of the loop of `parse_argument_list`. -/
def argumentTurn (p : Parser) (args : List ASTExpr) :
    Parse (List ASTExpr ⊕ List ASTExpr) := do
  match ← peek with
  | none | some ')' => return .inr args
  | some _ =>
      let arg ← p.expression
      skipWhitespace
      if (← peek) == some ',' then
        advance 1
        skipWhitespace
        return .inl (args ++ [arg])
      else
        return .inr (args ++ [arg])

/-- `parse_argument_list`. -/
def parseArgumentList (p : Parser) : Parse (List ASTExpr) := do
  skipWhitespace
  if (← peek) == some ')' then
    advance 1
    return []
  else
    let args ← whileLoop (argumentTurn p) []
    skipWhitespace
    require ')' "Missing closing parenthesis"
    return args

/-- The items of a bracket literal: elements, or entries once a `:` has been seen. -/
structure BracketItems where
  isDict : Bool
  elements : List ASTExpr
  entries : List (ASTExpr × ASTExpr)

/-- An item of a bracket literal. -/
def parseBracketItem (p : Parser) (items : BracketItems) : Parse BracketItems := do
  let first ← p.expression
  skipWhitespace
  if items.isDict || (← peek) == some ':' then
    require ':' "Expected ':' in dictionary literal"
    let value ← p.expression
    return { items with isDict := true, entries := items.entries ++ [(first, value)] }
  else
    return { items with elements := items.elements ++ [first] }

/-- A turn of the loop of `parse_array_or_dict`. -/
def bracketTurn (p : Parser) (items : BracketItems) :
    Parse (BracketItems ⊕ BracketItems) := do
  match ← peek with
  | none | some ']' => return .inr items
  | some _ =>
      let items ← parseBracketItem p items
      skipWhitespace
      if (← peek) == some ',' then
        advance 1
        skipWhitespace
        return .inl items
      else
        return .inr items

/-- The rest of `parse_array_or_dict`, by the first character in the brackets. -/
def parseBracketRest (p : Parser) (first : Option Char) : Parse ASTExpr := do
  match first with
  | some ':' =>
      advance 1
      skipWhitespace
      require ']' "Missing closing ']' in dictionary literal"
      return .dict []
  | some ']' =>
      advance 1
      return .arrayLiteral []
  | _ =>
      let items ← whileLoop (bracketTurn p) ⟨false, [], []⟩
      skipWhitespace
      require ']' "Missing closing ']' in array/dictionary literal"
      if items.isDict then return .dict items.entries
      else return .arrayLiteral items.elements

/-- `parse_array_or_dict`. -/
def parseArrayOrDict (p : Parser) : Parse ASTExpr := do
  skipWhitespace
  expect '['
  skipWhitespace
  parseBracketRest p (← peek)

/-! ### Identifiers -/

/-- A turn of the loop over the fields of a struct literal. -/
def fieldTurn (p : Parser) (fields : List (Ident × ASTExpr)) :
    Parse (List (Ident × ASTExpr) ⊕ List (Ident × ASTExpr)) := do
  match ← peek with
  | none | some '}' => return .inr fields
  | some c =>
      if !isIdentStart c then
        syntaxError "Expected field name in literal"
      else
        let name ← takeChars isIdentChar
        skipWhitespace
        require ':' "Expected ':' after field name in literal"
        let value ← p.expression
        skipWhitespace
        if (← peek) == some ',' then
          advance 1
          skipWhitespace
          return .inl (fields ++ [(name, value)])
        else
          return .inr (fields ++ [(name, value)])

/-- The struct literal of `parse_identifier_expr`. -/
def parseStructLiteral (p : Parser) (name : Ident) : Parse ASTExpr := do
  advance 1
  skipWhitespace
  let fields ← whileLoop (fieldTurn p) []
  skipWhitespace
  require '}' "Missing closing '\x7d' in literal"
  return .structLiteral name fields

/-- The rest of `parse_identifier_expr`, after the name. -/
def parseAfterName (p : Parser) (name : Ident) : Parse ASTExpr := do
  if name == "self".toList then return .self
  else if name == "super".toList then return .super
  else
    skipWhitespace
    match ← peek with
    | some '{' => parseStructLiteral p name
    | some '(' => do
        advance 1
        return .call name (← parseArgumentList p)
    | _ => return .var name

/-- `parse_identifier_expr`. -/
def parseIdentifierExpr (p : Parser) : Parse ASTExpr := do
  skipWhitespace
  if (← peek).any isIdentStart then
    parseAfterName p (← takeChars isIdentChar)
  else
    null

/-! ### Operands -/

/-- Whether a keyword stands at the pointer, and not the start of a longer
name. -/
def looksAtKeyword (keyword : List Char) : Parse Bool := do
  let source ← text
  return keyword.isPrefixOf source && !(source.drop keyword.length).head?.any isIdentChar

/-- The message for a character that starts no operand. -/
def unexpectedCharacter (c : Option Char) : String :=
  match c with
  | some c => "Unexpected character '" ++ c.toString ++ "'"
  | none => "Unexpected character '"

/-- The rest of `parse_primary`, by the first character of the operand. -/
def parseOperand (p : Parser) : Parse ASTExpr := do
  let source ← text
  match source with
  | [] => syntaxError (unexpectedCharacter none)
  | '(' :: _ => do
      advance 1
      let inner ← p.expression
      skipWhitespace
      require ')' "Missing closing parenthesis"
      return inner
  | '"' :: _ => parseStringLiteral p
  | c :: next =>
      if c.isDigit || (c == '.' && next.head?.any Char.isDigit) then parseNumber p
      else if c == '[' then parseArrayOrDict p
      else if isIdentStart c then parseIdentifierExpr p
      else syntaxError (unexpectedCharacter (some c))

/-- `parse_primary`. -/
def parsePrimary (p : Parser) : Parse ASTExpr := do
  skipWhitespace
  if ← looksAtKeyword "nil".toList then
    advance 3
    return .nil
  else if ← looksAtKeyword "true".toList then
    advance 4
    return .bool true
  else if ← looksAtKeyword "false".toList then
    advance 5
    return .bool false
  else
    parseOperand p

/-- The name after the dot in `parse_postfix`, and the call if there is one. -/
def parseMember (p : Parser) (base : ASTExpr) (isOptionalChain : Bool) : Parse ASTExpr := do
  skipWhitespace
  if !(← peek).any isIdentStart then
    syntaxError "Expected member name after '.'"
  else
    let member ← takeChars isIdentChar
    skipWhitespace
    if (← peek) == some '(' then
      advance 1
      return .methodCall base member (← parseArgumentList p) isOptionalChain
    else
      return .member base member isOptionalChain

/-- A turn of the loop of `parse_postfix`. -/
def postfixTurn (p : Parser) (base : ASTExpr) : Parse (ASTExpr ⊕ ASTExpr) := do
  skipWhitespace
  match ← text with
  | '[' :: _ =>
      advance 1
      let index ← p.expression
      skipWhitespace
      require ']' "Missing closing ']' in indexing"
      return .inl (.index base index)
  | '?' :: '.' :: _ =>
      advance 2
      return .inl (← parseMember p base true)
  | '.' :: _ =>
      advance 1
      return .inl (← parseMember p base false)
  | _ => return .inr base

/-- `parse_postfix`, on the result of `parse_primary`, which may be `NULL`. -/
def parsePostfix (p : Parser) (base : ASTExpr) : Parse ASTExpr := do
  let e ← whileLoop (postfixTurn p) base
  if e.isNull then null else return e

/-! ### Operators -/

/-- `parse_unary`. -/
def parseUnary (p : Parser) : Parse ASTExpr := do
  skipWhitespace
  match ← peek with
  | some '!' =>
      advance 1
      return .unary '!' (← p.unary)
  | some '-' =>
      advance 1
      return .unary '-' (← p.unary)
  | _ =>
      let base ← testNull (parsePrimary p)
      parsePostfix p (base.getD .null)

/-- A turn of a loop over operators of one precedence: the operator at the
pointer, as its code and its length, and the operand after it. -/
def operatorTurn (operator : List Char → Option (Char × ℕ)) (operand : Parse ASTExpr)
    (left : ASTExpr) : Parse (ASTExpr ⊕ ASTExpr) := do
  match operator (← text) with
  | some (op, length) =>
      advance length
      let right ← operand
      skipWhitespace
      return .inl (.binary op left right)
  | none => return .inr left

/-- The left associative operators of one precedence. -/
def parseLeftAssociative (operator : List Char → Option (Char × ℕ))
    (operand : Parse ASTExpr) : Parse ASTExpr := do
  let left ← operand
  skipWhitespace
  whileLoop (operatorTurn operator operand) left

/-- The operators of `parse_factor`. -/
def factorOperator : List Char → Option (Char × ℕ)
  | '*' :: _ => some ('*', 1)
  | '/' :: _ => some ('/', 1)
  | '%' :: _ => some ('%', 1)
  | _ => none

/-- `parse_factor`. -/
def parseFactor (p : Parser) : Parse ASTExpr :=
  parseLeftAssociative factorOperator (parseUnary p)

/-- The operators of `parse_term`. -/
def termOperator : List Char → Option (Char × ℕ)
  | '+' :: _ => some ('+', 1)
  | '-' :: _ => some ('-', 1)
  | _ => none

/-- `parse_term`. -/
def parseTerm (p : Parser) : Parse ASTExpr :=
  parseLeftAssociative termOperator (parseFactor p)

/-- The operators of `parse_comparison`. -/
def comparisonOperator : List Char → Option (Char × ℕ)
  | '=' :: '=' :: _ => some ('=', 2)
  | '!' :: '=' :: _ => some ('!', 2)
  | '<' :: '=' :: _ => some ('l', 2)
  | '>' :: '=' :: _ => some ('g', 2)
  | '<' :: _ => some ('<', 1)
  | '>' :: _ => some ('>', 1)
  | _ => none

/-- `parse_comparison`: at most one operator. -/
def parseComparison (p : Parser) : Parse ASTExpr := do
  let left ← parseTerm p
  skipWhitespace
  match comparisonOperator (← text) with
  | some (op, length) =>
      advance length
      return .binary op left (← parseTerm p)
  | none => return left

/-- The operator of `parse_logical_and`. -/
def andOperator : List Char → Option (Char × ℕ)
  | '&' :: '&' :: _ => some ('&', 2)
  | _ => none

/-- `parse_logical_and`. -/
def parseLogicalAnd (p : Parser) : Parse ASTExpr :=
  parseLeftAssociative andOperator (parseComparison p)

/-- The operator of `parse_logical_or`. -/
def orOperator : List Char → Option (Char × ℕ)
  | '|' :: '|' :: _ => some ('|', 2)
  | _ => none

/-- `parse_logical_or`. -/
def parseLogicalOr (p : Parser) : Parse ASTExpr :=
  parseLeftAssociative orOperator (parseLogicalAnd p)

/-! ### The extent of an expression -/

/-- The test of the colon in `is_expression_brace`. -/
def colonFollows (text : List Char) : Bool :=
  (text.dropWhile isBlank).head? == some ':'

/-- The text after the string of a key, whose opening quote has been read; none
where it does not end. -/
def afterKeyString : List Char → Option (List Char)
  | [] => none
  | '"' :: text => some text
  | '\\' :: _ :: text => afterKeyString text
  | _ :: text => afterKeyString text

/-- `is_expression_brace`, on the text after the brace. -/
def isExpressionBrace (text : List Char) : Bool :=
  match text.dropWhile isBlank with
  | '}' :: _ => true
  | '"' :: rest => (afterKeyString rest).any colonFollows
  | c :: rest => isIdentStart c && colonFollows (rest.dropWhile isIdentChar)
  | [] => false

/-- The counters of `parse_expression_str_as_ast`. -/
structure Extent where
  parens : ℕ
  braces : ℕ
  brackets : ℕ
  inString : Bool
  escape : Bool

namespace Extent

/-- The counters at the start. -/
def start : Extent := ⟨0, 0, 0, false, false⟩

/-- Outside of all brackets. -/
def atTop (x : Extent) : Bool :=
  x.parens == 0 && x.braces == 0 && x.brackets == 0

/-- The counters after a character of a string. -/
def stringStep (x : Extent) (c : Char) : Extent :=
  if x.escape then { x with escape := false }
  else if c == '\\' then { x with escape := true }
  else if c == '"' then { x with inString := false }
  else x

/-- The counters after a character that is not in a string, with the text after
it; none where the loop is left. -/
def codeStep (x : Extent) (c : Char) (text : List Char) : Option Extent :=
  if c == '"' then some { x with inString := true }
  else if x.atTop && c == '{' then
    if isExpressionBrace text then some { x with braces := x.braces + 1 } else none
  else if c == '(' then some { x with parens := x.parens + 1 }
  else if c == ')' then
    if x.parens == 0 then none else some { x with parens := x.parens - 1 }
  else if c == '{' then some { x with braces := x.braces + 1 }
  else if c == '}' then
    if x.braces == 0 then none else some { x with braces := x.braces - 1 }
  else if c == '[' then some { x with brackets := x.brackets + 1 }
  else if c == ']' then some { x with brackets := x.brackets - 1 }
  else if x.atTop && (c == '\n' || c == ';' || c == ',') then none
  else some x

end Extent

/-- The loop of `parse_expression_str_as_ast`: the number of characters up to the
one at which it is left. -/
def extentLength (x : Extent) : List Char → ℕ
  | [] => 0
  | c :: text =>
      if x.inString then extentLength (x.stringStep c) text + 1
      else
        match x.codeStep c text with
        | some x => extentLength x text + 1
        | none => 0

/-- The message for what is left after an expression, in the 256 bytes of its
buffer. -/
def unexpectedText (text : List Char) : String :=
  String.ofList (("Unexpected characters in expression: '".toList ++ text ++ ['\'']).take 255)

/-- The part of `parse_expression_str_as_ast` that runs on the copied text. -/
def parseWholeExpression (p : Parser) : Parse ASTExpr := do
  let e ← parseLogicalOr p
  skipWhitespace
  let left ← text
  if left.isEmpty then return e
  else
    setError .parseError (unexpectedText left)
    null

/-- `parse_expression_str_as_ast`. -/
def parseExpressionStr (p : Parser) : Parse ASTExpr := do
  let source ← text
  let length := extentLength .start source
  advance length
  onText (trimSpace (source.take length)) (parseWholeExpression p)

end BreadLang
