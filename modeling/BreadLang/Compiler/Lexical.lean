import BreadLang.Compiler.Ast
import BreadLang.Library.Hoare

/-!
# Reading the source text

The parser walks over the source with a pointer that every function of it
advances.  The pointer is the text that is left, so the end of the list is the
NUL of the C string.  Everything the parser does to the text goes through the
primitives of this module.

A function of the parser that returns `NULL` leaves the pointer where it
stopped, and its caller may go on from there.  So a failure keeps the state, and
the errors that have been recorded are part of it.
-/

namespace BreadLang

/-! ### Characters -/

/-- `isspace`, in the C locale. -/
def isSpace (c : Char) : Bool :=
  c == ' ' || c == '\t' || c == '\n' || c == '\r' || c == '\x0b' || c == '\x0c'

/-- The blanks that stay on a line. -/
def isBlank (c : Char) : Bool :=
  c == ' ' || c == '\t' || c == '\r'

/-- `is_ident_start`. -/
def isIdentStart (c : Char) : Bool :=
  c.isAlpha || c == '_'

/-- `is_ident_char`. -/
def isIdentChar (c : Char) : Bool :=
  c.isAlphanum || c == '_'

/-- A text without the white space around it. -/
def trimSpace (text : List Char) : List Char :=
  (text.reverse.dropWhile isSpace).reverse.dropWhile isSpace

/-- What holds of every character of a text is decided by going through the text,
not through all characters. -/
instance decidableForallChar (p : Char → Prop) [DecidablePred p] (text : List Char) :
    Decidable (∀ c ∈ text, p c) :=
  List.decidableBAll p text

/-! ### The state of the parser -/

/-- What is recorded about the statements of a run. -/
inductive ParseEvent where
  /-- `parse_stmt` has returned `NULL`. -/
  | stmtFailed
  /-- A statement goes on with a body for which `parse_block` has returned
  `NULL`. -/
  | bodyLost
  deriving DecidableEq

/-- The text that is left, and the globals of the error module: the current
error, and whether a compile-time error has been set since the start.  A pointer that
is advanced behind the NUL of the text is recorded too. -/
structure ParseState where
  rest : List Char
  error : Option BreadError
  compilationFailed : Bool
  trace : List ParseEvent
  pastEnd : Bool

/-- Why a function of the parser has no result. -/
inductive ParseFail where
  /-- A return of `NULL` or zero. -/
  | null
  /-- A loop or a recursion that does not end. -/
  | diverges
  deriving DecidableEq

/-- The outcome of a function of the parser. -/
abbrev Parse := Stateful ParseState ParseFail

namespace Parse

variable {α β : Type}

/-- A return of `NULL`. -/
def null : Parse α :=
  throw .null

/-- `bread_error_set` with an error of the compiler. -/
def setError (type : BreadErrorType) (message : String) : Parse Unit :=
  modify fun s => { s with error := some ⟨type, message⟩, compilationFailed := true }

/-- A syntax error and a return of `NULL`. -/
def syntaxError (message : String) : Parse α := do
  setError .syntaxError message
  null

/-- A call whose result is tested for `NULL`. -/
def testNull (m : Parse α) : Parse (Option α) :=
  Stateful.attempt (· == .null) m

/-- An event is recorded. -/
def record (event : ParseEvent) : Parse Unit :=
  modify fun s => { s with trace := event :: s.trace }

/-- The text from the pointer on. -/
def text : Parse (List Char) := do
  return (← get).rest

/-- The character at the pointer; none is the NUL. -/
def peek : Parse (Option Char) := do
  return (← text).head?

/-- Whether the text at the pointer starts with a string, as `strncmp` tells. -/
def looksAt (prefixText : List Char) : Parse Bool := do
  return prefixText.isPrefixOf (← text)

/-- The pointer is advanced; the text should have as many characters. -/
def advance (n : ℕ) : Parse Unit :=
  modify fun s =>
    { s with rest := s.rest.drop n, pastEnd := s.pastEnd || decide (s.rest.length < n) }

/-- The characters up to the first one that is not of a class; the pointer is
advanced to that one. -/
def takeChars (p : Char → Bool) : Parse (List Char) :=
  modifyGet fun s => (s.rest.takeWhile p, { s with rest := s.rest.dropWhile p })

/-- A character that has to come next. -/
def expect (c : Char) : Parse Unit := do
  if (← peek) == some c then advance 1 else null

/-- A character that has to come next, with the error that is recorded where it does
not. -/
def require (c : Char) (message : String) : Parse Unit := do
  if (← peek) == some c then advance 1 else syntaxError message

/-- A name that must not be empty. -/
def identifier : Parse Ident := do
  let name ← takeChars isIdentChar
  if name.isEmpty then null else return name

/-- A function of the parser on a text of its own. -/
def onText (source : List Char) (m : Parse α) : Parse α :=
  Stateful.within (fun s => { s with rest := source }) (fun s t => { t with rest := s.rest }) m

/-- A loop of the parser: every turn continues with a new value of the variables of
the loop, or ends.  A loop whose turns all advance the pointer has at most as
many of them as there are characters left, and one more at the end. -/
def whileLoop (turn : α → Parse (α ⊕ β)) (a : α) : Parse β := do
  Stateful.loop .diverges turn ((← text).length + 1) a

end Parse

open Parse

/-! ### White space and comments -/

/-- The two loops of `skip_whitespace`.  The inner one stops at the line break that
ends a comment, which the outer one skips. -/
def skipSpaceAndComments (inComment : Bool) : List Char → List Char
  | [] => []
  | c :: text =>
      if inComment then skipSpaceAndComments (c != '\n') text
      else if isSpace c then skipSpaceAndComments false text
      else if c == '/' && text.head? == some '/' then skipSpaceAndComments true text
      else c :: text

/-- `skip_whitespace` of the statement and expression parsers. -/
def skipWhitespace : Parse Unit :=
  modify fun s => { s with rest := skipSpaceAndComments false s.rest }

/-- `skip_whitespace` of the type parser, which knows no comments. -/
def skipTypeWhitespace : Parse Unit :=
  modify fun s => { s with rest := s.rest.dropWhile isSpace }

end BreadLang
