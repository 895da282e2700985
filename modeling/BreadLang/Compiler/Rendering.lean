import BreadLang.Compiler.ExprReading

/-!
# The texts of an expression

`Rendered strict k e t` says that `t` is a text of the expression `e` at a place where an
expression of the level `k` or a higher one stands.  There are parentheses exactly where the
level of `e` is too low, and any white space between the tokens.  The digits of a number go on
at a dot, so a `strict` text has a blank between a number and the dot of a member.
-/

namespace BreadLang

/-! ### Lists of items -/

/-- White space, which may be missing. -/
def IsSpaces (space : List Char) : Prop :=
  ∀ c ∈ space, isSpace c = true

section Lists

variable {α : Type} (R : α → List Char → Prop)

/-- Items with commas between them. -/
inductive Separated : List α → List Char → Prop
  | one {a : α} {t : List Char} (h : R a t) : Separated [a] t
  | more {a : α} {as : List α} {t ts space space' : List Char} (h : R a t)
      (hspace : IsSpaces space) (hspace' : IsSpaces space') (hs : Separated as ts) :
      Separated (a :: as) (t ++ (space ++ ',' :: (space' ++ ts)))

/-- Items in brackets. -/
inductive Bracketed (opening closing : Char) : List α → List Char → Prop
  | empty {space : List Char} (hspace : IsSpaces space) :
      Bracketed opening closing [] (opening :: (space ++ [closing]))
  | items {as : List α} {ts space space' : List Char} (hspace : IsSpaces space)
      (hspace' : IsSpaces space') (hs : Separated R as ts) :
      Bracketed opening closing as (opening :: (space ++ (ts ++ (space' ++ [closing]))))

/-- A key, a colon and a value. -/
inductive Paired : α × α → List Char → Prop
  | mk {k v : α} {t t' space space' : List Char} (hk : R k t) (hspace : IsSpaces space)
      (hspace' : IsSpaces space') (hv : R v t') :
      Paired (k, v) (t ++ (space ++ ':' :: (space' ++ t')))

end Lists

/-! ### Operators and names -/

/-- The characters of a binary operator, and its level. -/
def operatorSyntax : Char → Option (List Char × ℕ)
  | '|' => some ("||".toList, 0)
  | '&' => some ("&&".toList, 1)
  | '=' => some ("==".toList, 2)
  | '!' => some ("!=".toList, 2)
  | 'l' => some ("<=".toList, 2)
  | 'g' => some (">=".toList, 2)
  | '<' => some ("<".toList, 2)
  | '>' => some (">".toList, 2)
  | '+' => some ("+".toList, 3)
  | '-' => some ("-".toList, 3)
  | '*' => some ("*".toList, 4)
  | '/' => some ("/".toList, 4)
  | '%' => some ("%".toList, 4)
  | _ => none

/-- The level of the left operand: operators other than comparisons are left associative. -/
def leftLevel (level : ℕ) : ℕ :=
  if level = 2 then 3 else level

/-- The level of an expression: that of its operator, 5 for a prefix operator and 6 for what
is left. -/
def ASTExpr.level : ASTExpr → ℕ
  | .binary op _ _ => ((operatorSyntax op).map Prod.snd).getD 6
  | .unary _ _ => 5
  | _ => 6

/-- The words that are no names of variables and functions. -/
def reservedWords : List (List Char) :=
  literalWords ++ ["self".toList, "super".toList]

/-- The dot of a member. -/
def dotText (isOptionalChain : Bool) : List Char :=
  if isOptionalChain then ['?', '.'] else ['.']

/-! ### Texts of expressions -/

mutual

/-- **A text of an expression** at a place of a level. -/
inductive Rendered (strict : Bool) : ℕ → ASTExpr → List Char → Prop
  | plain {level : ℕ} {e : ASTExpr} {t : List Char} (hlevel : level ≤ e.level)
      (h : Body strict e t) : Rendered strict level e t
  | parens {level : ℕ} {e : ASTExpr} {t space space' : List Char} (hlevel : e.level < level)
      (hspace : IsSpaces space) (hspace' : IsSpaces space') (h : Body strict e t) :
      Rendered strict level e ('(' :: (space ++ (t ++ (space' ++ [')']))))

/-- A text of an expression without parentheses around it. -/
inductive Body (strict : Bool) : ASTExpr → List Char → Prop
  | nil : Body strict .nil "nil".toList
  | true : Body strict (.bool .true) "true".toList
  | false : Body strict (.bool .false) "false".toList
  | int {k : BreadInt} {digits : List Char} (hne : digits ≠ [])
      (hdigits : ∀ c ∈ digits, c.isDigit = .true) (hlength : digits.length < maxTokenLen)
      (hvalue : k.val = digitsValue digits) (hbound : digitsValue digits < 2 ^ 31) :
      Body strict (.int k) digits
  | var {name : List Char} (hname : IsIdentifier name) (hword : name ∉ reservedWords) :
      Body strict (.var name) name
  | unary {op : Char} {e : ASTExpr} {t space : List Char} (hop : op = '!' ∨ op = '-')
      (hspace : IsSpaces space) (h : Rendered strict 5 e t) :
      Body strict (.unary op e) (op :: (space ++ t))
  | binary {op : Char} {left right : ASTExpr} {opText t t' space space' : List Char} {level : ℕ}
      (hop : operatorSyntax op = some (opText, level)) (hspace : IsSpaces space)
      (hspace' : IsSpaces space') (hl : Rendered strict (leftLevel level) left t)
      (hr : Rendered strict (level + 1) right t') :
      Body strict (.binary op left right) (t ++ (space ++ (opText ++ (space' ++ t'))))
  | call {name : List Char} {args : List ASTExpr} {t space : List Char}
      (hname : IsIdentifier name) (hword : name ∉ reservedWords) (hspace : IsSpaces space)
      (h : Bracketed (Rendered strict 0) '(' ')' args t) :
      Body strict (.call name args) (name ++ (space ++ t))
  | index {target index : ASTExpr} {t t' space space' space'' : List Char}
      (hspace : IsSpaces space) (hspace' : IsSpaces space') (hspace'' : IsSpaces space'')
      (ht : Rendered strict 6 target t) (hi : Rendered strict 0 index t') :
      Body strict (.index target index)
        (t ++ (space ++ '[' :: (space' ++ (t' ++ (space'' ++ [']'])))))
  | member {target : ASTExpr} {name : List Char} {isOptionalChain : Bool}
      {t space space' : List Char} (hspace : IsSpaces space) (hspace' : IsSpaces space')
      (hblank : strict = .true → isOptionalChain = .false → ∀ k, target = .int k → space ≠ [])
      (hname : IsIdentifier name) (ht : Rendered strict 6 target t) :
      Body strict (.member target name isOptionalChain)
        (t ++ (space ++ (dotText isOptionalChain ++ (space' ++ name))))
  | methodCall {target : ASTExpr} {name : List Char} {args : List ASTExpr}
      {isOptionalChain : Bool} {t ts space space' space'' : List Char} (hspace : IsSpaces space)
      (hspace' : IsSpaces space') (hspace'' : IsSpaces space'')
      (hblank : strict = .true → isOptionalChain = .false → ∀ k, target = .int k → space ≠ [])
      (hname : IsIdentifier name) (ht : Rendered strict 6 target t)
      (h : Bracketed (Rendered strict 0) '(' ')' args ts) :
      Body strict (.methodCall target name args isOptionalChain)
        (t ++ (space ++ (dotText isOptionalChain ++ (space' ++ (name ++ (space'' ++ ts))))))
  | array {elements : List ASTExpr} {t : List Char}
      (h : Bracketed (Rendered strict 0) '[' ']' elements t) :
      Body strict (.arrayLiteral elements) t
  | dict {entries : List (ASTExpr × ASTExpr)} {t : List Char} (hne : entries ≠ [])
      (h : Bracketed (Paired (Rendered strict 0)) '[' ']' entries t) : Body strict (.dict entries) t
  | emptyDict {space space' : List Char} (hspace : IsSpaces space) (hspace' : IsSpaces space') :
      Body strict (.dict []) ('[' :: (space ++ ':' :: (space' ++ [']'])))

end

/-! ### Printable expressions -/

/-- The expressions that the texts are of. -/
inductive Printable : ASTExpr → Prop
  | nil : Printable .nil
  | bool (val : Bool) : Printable (.bool val)
  | int {val : BreadInt} (hmin : 0 ≤ val.val) (hmax : val.val < 2 ^ 31) : Printable (.int val)
  | var {name : Ident} (hname : IsIdentifier name) (hword : name ∉ reservedWords) :
      Printable (.var name)
  | unary {op : Char} {operand : ASTExpr} (hop : op = '!' ∨ op = '-') (h : Printable operand) :
      Printable (.unary op operand)
  | binary {op : Char} {left right : ASTExpr} (hop : (operatorSyntax op).isSome = true)
      (hl : Printable left) (hr : Printable right) : Printable (.binary op left right)
  | call {name : Ident} {args : List ASTExpr} (hname : IsIdentifier name)
      (hword : name ∉ reservedWords) (h : ∀ arg ∈ args, Printable arg) : Printable (.call name args)
  | index {target index : ASTExpr} (ht : Printable target) (hi : Printable index) :
      Printable (.index target index)
  | member {target : ASTExpr} {member : Ident} (isOptionalChain : Bool)
      (hname : IsIdentifier member) (h : Printable target) :
      Printable (.member target member isOptionalChain)
  | methodCall {target : ASTExpr} {name : Ident} {args : List ASTExpr} (isOptionalChain : Bool)
      (hname : IsIdentifier name) (ht : Printable target) (h : ∀ arg ∈ args, Printable arg) :
      Printable (.methodCall target name args isOptionalChain)
  | array {elements : List ASTExpr} (h : ∀ element ∈ elements, Printable element) :
      Printable (.arrayLiteral elements)
  | dict {entries : List (ASTExpr × ASTExpr)} (hk : ∀ entry ∈ entries, Printable entry.1)
      (hv : ∀ entry ∈ entries, Printable entry.2) : Printable (.dict entries)

end BreadLang
