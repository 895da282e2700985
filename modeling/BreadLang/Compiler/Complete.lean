import BreadLang.Compiler.StmtParser

/-!
# Complete expressions

A node of the tree is complete when none of the pointers that its kind needs is
`NULL`.  `Follows` is the contract that the functions of the parser have: what
they record, and that their result is complete or an error has been recorded.

Every function of the expression parser has one lemma here, which follows its
text.  A return of `NULL` from it always records an error.
-/

namespace BreadLang

open Stateful Parse

/-! ### Complete trees -/

/-- An expression without a null pointer. -/
inductive ASTExpr.Complete : ASTExpr → Prop
  | nil : Complete .nil
  | bool (b : Bool) : Complete (.bool b)
  | int (n : BreadInt) : Complete (.int n)
  | double (d : DoubleBits) : Complete (.double d)
  | string (s : BreadString) : Complete (.string s)
  | stringLiteral (s : BreadString) : Complete (.stringLiteral s)
  | var (name : Ident) : Complete (.var name)
  | self : Complete .self
  | super : Complete .super
  | binary {op : Char} {left right : ASTExpr} (hl : left.Complete) (hr : right.Complete) :
      Complete (.binary op left right)
  | unary {op : Char} {operand : ASTExpr} (h : operand.Complete) : Complete (.unary op operand)
  | call {name : Ident} {args : List ASTExpr} (h : ∀ a ∈ args, a.Complete) :
      Complete (.call name args)
  | array {items : List ASTExpr} (h : ∀ a ∈ items, a.Complete) : Complete (.array items)
  | arrayLiteral {elements : List ASTExpr} (h : ∀ a ∈ elements, a.Complete) :
      Complete (.arrayLiteral elements)
  | dict {entries : List (ASTExpr × ASTExpr)} (hkeys : ∀ e ∈ entries, e.1.Complete)
      (hvalues : ∀ e ∈ entries, e.2.Complete) : Complete (.dict entries)
  | index {target index : ASTExpr} (ht : target.Complete) (hi : index.Complete) :
      Complete (.index target index)
  | member {target : ASTExpr} {member : Ident} {chain : Bool} (h : target.Complete) :
      Complete (.member target member chain)
  | methodCall {target : ASTExpr} {name : Ident} {args : List ASTExpr} {chain : Bool}
      (ht : target.Complete) (h : ∀ a ∈ args, a.Complete) :
      Complete (.methodCall target name args chain)
  | structLiteral {name : Ident} {fields : List (Ident × ASTExpr)}
      (h : ∀ f ∈ fields, f.2.Complete) : Complete (.structLiteral name fields)
  | classLiteral {name : Ident} {fields : List (Ident × ASTExpr)}
      (h : ∀ f ∈ fields, f.2.Complete) : Complete (.classLiteral name fields)

/-- A parameter whose default is missing or complete. -/
def ASTParam.Complete (p : ASTParam) : Prop :=
  p.default = .null ∨ p.default.Complete

mutual

/-- A statement that has all the expressions and bodies its kind needs. -/
inductive ASTStmt.Complete : ASTStmt → Prop
  | varDecl {name : Ident} {type : VarType} {typeDesc : Option TypeDescriptor} {init : ASTExpr}
      {isConst : Bool} (h : init.Complete) : ASTStmt.Complete (.varDecl name type typeDesc init isConst)
  | varAssign {name : Ident} {value : ASTExpr} {op : Option Char} (h : value.Complete) :
      ASTStmt.Complete (.varAssign name value op)
  | indexAssign {target index value : ASTExpr} {op : Option Char} (ht : target.Complete)
      (hi : index.Complete) (h : value.Complete) : ASTStmt.Complete (.indexAssign target index value op)
  | memberAssign {target : ASTExpr} {member : Ident} {value : ASTExpr} {op : Option Char}
      (ht : target.Complete) (h : value.Complete) :
      ASTStmt.Complete (.memberAssign target member value op)
  | print {e : ASTExpr} (h : e.Complete) : ASTStmt.Complete (.print e)
  | expr {e : ASTExpr} (h : e.Complete) : ASTStmt.Complete (.expr e)
  | return {e : ASTExpr} {tag : Option TypeDescriptor} (h : e.Complete) : ASTStmt.Complete (.return e tag)
  | ifStmt {condition : ASTExpr} {thenBranch : ASTStmtList} {elseBranch : Option ASTStmtList}
      (hc : condition.Complete) (ht : ∀ s ∈ thenBranch, s.Complete)
      (he : ∀ list, elseBranch = some list → ∀ s ∈ list, s.Complete) :
      ASTStmt.Complete (.ifStmt condition (some thenBranch) elseBranch)
  | whileStmt {condition : ASTExpr} {body : ASTStmtList} (hc : condition.Complete)
      (h : ∀ s ∈ body, s.Complete) : ASTStmt.Complete (.whileStmt condition (some body))
  | forStmt {name : Ident} {range : ASTExpr} {body : ASTStmtList} (hr : range.Complete)
      (h : ∀ s ∈ body, s.Complete) : ASTStmt.Complete (.forStmt name range (some body))
  | forIn {name : Ident} {iterable : ASTExpr} {body : ASTStmtList} (hi : iterable.Complete)
      (h : ∀ s ∈ body, s.Complete) : ASTStmt.Complete (.forIn name iterable (some body))
  | break : ASTStmt.Complete .break
  | continue : ASTStmt.Complete .continue
  | funcDecl {decl : FuncDecl} (h : decl.Complete) : ASTStmt.Complete (.funcDecl decl)
  | structDecl (name : Ident) (fields : List (Ident × TypeDescriptor)) :
      ASTStmt.Complete (.structDecl name fields)
  | classDecl {name : Ident} {parentName : Option Ident} {fields : List (Ident × TypeDescriptor)}
      {methods : List FuncDecl} {init : FuncDecl} (hm : ∀ m ∈ methods, m.Complete)
      (hi : init.Complete) : ASTStmt.Complete (.classDecl name parentName fields methods (some init))
  | importStmt (path : Ident) (moduleAlias : Option Ident) (isSelective : Bool)
      (symbols : List (Ident × Option Ident)) :
      ASTStmt.Complete (.importStmt path moduleAlias isSelective symbols)
  | exportStmt (isDefault : Bool) (symbols : List (Ident × Option Ident)) :
      ASTStmt.Complete (.exportStmt isDefault symbols)

/-- A function with a body. -/
inductive ASTFuncDecl.Complete : FuncDecl → Prop
  | mk {decl : FuncDecl} {body : ASTStmtList} (hp : ∀ p ∈ decl.params, p.Complete)
      (hb : decl.body = some body) (h : ∀ s ∈ body, s.Complete) : ASTFuncDecl.Complete decl

end

/-! ### What a function of the parser leaves behind -/

namespace Parse

variable {α β : Type}

/-- The state since the events `t`: a body has been lost only where a statement has
failed; and as long as no body has been lost, no statement has failed, and an
error has been recorded or `C` holds. -/
def Healthy (t : List ParseEvent) (C : Prop) (s : ParseState) : Prop :=
  ∃ new, s.trace = new ++ t ∧ (.bodyLost ∈ new → .stmtFailed ∈ new) ∧
    (.bodyLost ∉ new → .stmtFailed ∉ new ∧ (s.compilationFailed = true ∨ C))

/-- What holds after a return of `NULL`. -/
abbrev NullPost := List ParseEvent → ParseFail → ParseState → Prop

/-- An error has been recorded. -/
def exprNull : NullPost := fun t e s =>
  e = .null → Healthy t False s

/-- A statement may have failed. -/
def stmtNull : NullPost := fun t e s =>
  e = .null → ∃ new, s.trace = new ++ t ∧ (.bodyLost ∈ new → .stmtFailed ∈ new)

/-- A statement has failed. -/
def blockNull : NullPost := fun t e s =>
  e = .null → ∃ new, s.trace = new ++ t ∧ .stmtFailed ∈ new

/-- **The contract of a function of the parser**: with the facts `C` about what has been
parsed before it, its result is such that `Q`. -/
def Follows (E : NullPost) (C : Prop) (m : Parse α) (Q : α → Prop) : Prop :=
  ∀ t C', (C' → C) → Triple (Healthy t C') m (fun a => Healthy t (C' ∧ Q a)) (E t)

theorem Healthy.mono {t : List ParseEvent} {C C' : Prop} {s : ParseState}
    (h : Healthy t C s) (himp : C → C') : Healthy t C' s := by
  obtain ⟨new, htrace, hlost, hkept⟩ := h
  exact ⟨new, htrace, hlost, fun hnew => ⟨(hkept hnew).1, (hkept hnew).2.imp_right himp⟩⟩

/-- A step that changes neither the events nor the record of errors. -/
def Neutral (m : Parse α) : Prop :=
  ∀ s, (∃ a, m.result s = .ok a) ∧ (m.final s).trace = s.trace ∧
    (m.final s).compilationFailed = s.compilationFailed

theorem neutral_text : Neutral text := fun _ => ⟨⟨_, rfl⟩, rfl, rfl⟩

theorem neutral_peek : Neutral peek := fun _ => ⟨⟨_, rfl⟩, rfl, rfl⟩

theorem neutral_looksAt (w : List Char) : Neutral (looksAt w) := fun _ => ⟨⟨_, rfl⟩, rfl, rfl⟩

theorem neutral_advance (n : ℕ) : Neutral (advance n) := fun _ => ⟨⟨_, rfl⟩, rfl, rfl⟩

theorem neutral_takeChars (p : Char → Bool) : Neutral (takeChars p) :=
  fun _ => ⟨⟨_, rfl⟩, rfl, rfl⟩

theorem neutral_skipWhitespace : Neutral skipWhitespace := fun _ => ⟨⟨_, rfl⟩, rfl, rfl⟩

theorem neutral_looksAtKeyword (w : List Char) : Neutral (looksAtKeyword w) :=
  fun _ => ⟨⟨_, rfl⟩, rfl, rfl⟩

theorem neutral_looksAtWord (w : List Char) : Neutral (looksAtWord w) :=
  fun _ => ⟨⟨_, rfl⟩, rfl, rfl⟩

section Rules

variable {E : NullPost} {C : Prop} {Q : α → Prop} {R : β → Prop}

theorem follows_pure {a : α} (h : C → Q a) : Follows E C (pure a) Q :=
  fun _ _ hC => triple_pure fun _ hs => hs.mono fun hc => ⟨hc, h (hC hc)⟩

theorem follows_bind {m : Parse α} {f : α → Parse β} (hm : Follows E C m Q)
    (hf : ∀ a, Follows E (C ∧ Q a) (f a) R) : Follows E C (m >>= f) R := by
  intro t C' hC
  refine triple_bind (hm t C' hC) fun a => ?_
  refine triple_conseq (hf a t (C' ∧ Q a) (And.imp_left hC)) (fun _ hs => hs) ?_ (fun _ _ he => he)
  exact fun b s hs => hs.mono fun h => ⟨h.1.1, h.2⟩

theorem follows_conseq {E' : NullPost} {C' : Prop} {Q' : α → Prop} {m : Parse α}
    (h : Follows E C m Q) (hE : ∀ t e s, E t e s → E' t e s) (hC : C' → C)
    (hQ : ∀ a, C' → Q a → Q' a) : Follows E' C' m Q' := by
  intro t D hD
  refine triple_conseq (h t D fun hd => hC (hD hd)) (fun _ hs => hs) ?_ (hE t)
  exact fun a s hs => hs.mono fun hd => ⟨hd.1, hQ a (hD hd.1) hd.2⟩

theorem Neutral.follows {m : Parse α} (h : Neutral m) : Follows E C m fun _ => True := by
  intro t C' _ s hs
  obtain ⟨⟨a, ha⟩, htrace, hfailed⟩ := h s
  rw [ha]
  obtain ⟨new, hnew, hlost, hkept⟩ := hs
  refine ⟨new, htrace.trans hnew, hlost, fun hno => ⟨(hkept hno).1, ?_⟩⟩
  rw [hfailed]
  exact (hkept hno).2.imp_right fun hc => ⟨hc, trivial⟩

/-- A neutral step, and what follows it. -/
theorem Neutral.bind {m : Parse α} {f : α → Parse β} (hm : Neutral m)
    (hf : ∀ a, Follows E C (f a) R) : Follows E C (m >>= f) R :=
  follows_bind hm.follows fun a =>
    follows_conseq (hf a) (fun _ _ _ he => he) And.left fun _ _ hq => hq

theorem follows_setError {type : BreadErrorType} {message : String} :
    Follows E C (setError type message) fun _ => False := by
  intro t C' _
  refine triple_modify fun s hs => ?_
  obtain ⟨new, hnew, hlost, hkept⟩ := hs
  exact ⟨new, hnew, hlost, fun hno => ⟨(hkept hno).1, .inl rfl⟩⟩

theorem follows_false_null {Q : α → Prop} : Follows exprNull False (null : Parse α) Q :=
  fun _ _ hC => triple_throw fun _ hs _ => hs.mono hC

/-- A syntax error and a return of `NULL`. -/
theorem follows_syntaxError {message : String} {Q : α → Prop} :
    Follows exprNull C (syntaxError message : Parse α) Q :=
  follows_bind follows_setError fun _ =>
    follows_conseq follows_false_null (fun _ _ _ he => he) And.right fun _ _ hq => hq

/-- A loop that does not end has no result, and none is promised. -/
def AllowsDiverging (E : NullPost) : Prop :=
  ∀ t s, E t .diverges s

theorem exprNull_allowsDiverging : AllowsDiverging exprNull := fun _ _ h => nomatch h

theorem stmtNull_allowsDiverging : AllowsDiverging stmtNull := fun _ _ h => nomatch h

theorem blockNull_allowsDiverging : AllowsDiverging blockNull := fun _ _ h => nomatch h

/-- **A loop of the parser keeps its invariant.** -/
theorem follows_whileLoop (hE : AllowsDiverging E) {turn : α → Parse (α ⊕ β)} {I : α → Prop}
    (hturn : ∀ a, Follows E (C ∧ I a) (turn a) (Sum.elim I R)) {a : α} (ha : C → I a) :
    Follows E C (whileLoop turn a) R := by
  refine neutral_text.bind fun source => ?_
  intro t C' hC
  have hloop : ∀ (n : ℕ) (a : α), Triple (Healthy t (C' ∧ I a))
      (Stateful.loop .diverges turn n a) (fun b => Healthy t (C' ∧ R b)) (E t) := by
    refine triple_loop (fun a => ?_) fun _ s _ => hE t s
    refine triple_conseq (hturn a t (C' ∧ I a) (And.imp_left hC)) (fun _ hs => hs) ?_
      (fun _ _ he => he)
    intro r s hs
    cases r with
    | inl b => exact hs.mono fun h => ⟨h.1.1, h.2⟩
    | inr b => exact hs.mono fun h => ⟨h.1.1, h.2⟩
  exact triple_conseq (hloop _ a) (fun s hs => hs.mono fun hc => ⟨hc, ha (hC hc)⟩)
    (fun _ _ hb => hb) (fun _ _ he => he)

/-- A call that may return `NULL`, where that records an error. -/
theorem follows_testNull (hE : AllowsDiverging E) {m : Parse α} (hm : Follows exprNull C m Q) :
    Follows E C (testNull m) fun o => ∃ a, o = some a ∧ Q a := by
  intro t C' hC
  refine triple_conseq (triple_attempt (hm t C' hC)) (fun _ hs => hs) ?_ ?_
  · intro o s hs
    cases o with
    | none =>
        obtain ⟨e, he, hnull⟩ := hs
        exact (hnull (beq_iff_eq.mp he)).mono False.elim
    | some a => exact Healthy.mono hs fun h => ⟨h.1, a, rfl, h.2⟩
  · intro e s hs
    cases e with
    | null => exact absurd hs.1 (by decide)
    | diverges => exact hE t s

/-- A function of the parser on a text of its own. -/
theorem follows_onText {source : List Char} {m : Parse α} (hm : Follows exprNull C m Q) :
    Follows exprNull C (onText source m) Q := by
  intro t C' hC
  exact triple_within (hm t C' hC) (fun _ hs => hs) (fun _ _ _ ha => ha) fun _ _ _ he => he

/-- At a character that starts a token, `skip_whitespace` does nothing. -/
theorem triple_skipWhitespace_bind {P : ParseState → Prop} {c : Char} {next : List Char}
    (hspace : isSpace c = false) (hslash : c ≠ '/') {f : Unit → Parse β}
    {R : β → ParseState → Prop} {E : ParseFail → ParseState → Prop}
    (hf : Triple (fun s => s.rest = c :: next ∧ P s) (f ()) R E) :
    Triple (fun s => s.rest = c :: next ∧ P s) (skipWhitespace >>= f) R E := by
  intro s hs
  have hskip : skipSpaceAndComments false s.rest = s.rest := by
    rw [hs.1, skipSpaceAndComments]
    simp [hspace, hslash]
  have hsame : ({ s with rest := skipSpaceAndComments false s.rest } : ParseState) = s := by
    rw [hskip]
  have hrun := hf s hs
  show Holds R E ((f ()).result { s with rest := skipSpaceAndComments false s.rest })
    ((f ()).final { s with rest := skipSpaceAndComments false s.rest })
  rw [hsame]
  exact hrun

theorem triple_peek_bind {P : ParseState → Prop} {c : Char} {next : List Char}
    {f : Option Char → Parse β} {R : β → ParseState → Prop} {E : ParseFail → ParseState → Prop}
    (hf : Triple (fun s => s.rest = c :: next ∧ P s) (f (some c)) R E) :
    Triple (fun s => s.rest = c :: next ∧ P s) (peek >>= f) R E := by
  intro s hs
  have hhead : s.rest.head? = some c := by
    rw [hs.1]
    rfl
  have hrun := hf s hs
  show Holds R E ((f s.rest.head?).result s) ((f s.rest.head?).final s)
  rw [hhead]
  exact hrun

theorem triple_expect_bind {P : ParseState → Prop} {c : Char} {next : List Char}
    {f : Unit → Parse β} {R : β → ParseState → Prop} {E : ParseFail → ParseState → Prop}
    (hf : Triple (fun s => s.rest = c :: next ∧ P s) (advance 1 >>= f) R E) :
    Triple (fun s => s.rest = c :: next ∧ P s) (expect c >>= f) R E := by
  have hexpect : Triple (fun s => s.rest = c :: next ∧ P s)
      (peek >>= fun x => (if x == some c then advance 1 else null) >>= f) R E := by
    refine triple_peek_bind ?_
    simpa using hf
  exact hexpect

theorem triple_text_bind {P : ParseState → Prop} {f : List Char → Parse β}
    {R : β → ParseState → Prop} {E : ParseFail → ParseState → Prop}
    (hf : ∀ source, Triple (fun s => s.rest = source ∧ P s) (f source) R E) :
    Triple P (text >>= f) R E :=
  fun s hs => hf s.rest s ⟨rfl, hs⟩

theorem Follows.of_true {m : Parse α} (h : Follows E True m Q) : Follows E C m Q :=
  follows_conseq h (fun _ _ _ he => he) (fun _ => trivial) fun _ _ hq => hq

theorem follows_require {c : Char} {message : String} :
    Follows exprNull C (require c message) fun _ => True := by
  refine neutral_peek.bind fun x => ?_
  split
  · exact (neutral_advance 1).follows
  · exact follows_syntaxError

/-- A character that has to come next, and what follows it. -/
theorem follows_require_bind {c : Char} {message : String} {f : Unit → Parse β}
    (hf : Follows exprNull C (f ()) R) : Follows exprNull C (require c message >>= f) R :=
  follows_bind follows_require fun _ =>
    follows_conseq hf (fun _ _ _ he => he) And.left fun _ _ hr => hr

end Rules

end Parse

/-- The list so far and one more complete element. -/
theorem forall_mem_append_singleton {α : Type} {P : α → Prop} {as : List α} {a : α}
    (has : ∀ x ∈ as, P x) (ha : P a) : ∀ x ∈ as ++ [a], P x :=
  List.forall_mem_append.mpr ⟨has, by simpa using ha⟩

/-! ### Expressions -/

/-- The functions of the parser that the others call have their contracts. -/
structure Parser.Contract (p : Parser) : Prop where
  expression : Follows exprNull True p.expression ASTExpr.Complete
  unary : Follows exprNull True p.unary ASTExpr.Complete
  typeDescriptor : Follows stmtNull True p.typeDescriptor fun _ => True
  stmt : Follows blockNull True p.stmt ASTStmt.Complete

section Expressions

variable {p : Parser} {C : Prop}

theorem follows_numberNode {digits : List Char} :
    Follows exprNull C (numberNode p digits) ASTExpr.Complete := by
  unfold numberNode
  split
  · exact follows_syntaxError
  · split
    · exact follows_pure fun _ => .double _
    · exact follows_pure fun _ => .int _

/-- A number is not empty where it starts with a digit, or with a dot and a digit. -/
theorem numberLength_pos {c : Char} {next : List Char}
    (h : (c.isDigit || (c == '.' && next.head?.any Char.isDigit)) = true) :
    numberLength false (c :: next) ≠ 0 := by
  unfold numberLength
  split
  · exact Nat.succ_ne_zero _
  · rename_i hdigit
    have hdot : c = '.' := by
      simp only [hdigit, Bool.false_or, Bool.and_eq_true, beq_iff_eq] at h
      exact h.1
    subst hdot
    exact Nat.succ_ne_zero _

/-- `parse_number`, where a number starts. -/
theorem triple_parseNumber {t : List ParseEvent} {source : List Char}
    (h : numberLength false source ≠ 0) :
    Triple (fun s => s.rest = source ∧ Healthy t C s) (parseNumber p)
      (fun e => Healthy t (C ∧ e.Complete)) (exprNull t) := by
  refine triple_text_bind fun source' => ?_
  intro s hs
  obtain ⟨rfl, rfl, hs⟩ := hs
  have hdigits : (s.rest.take (numberLength false s.rest)).isEmpty = false := by
    cases hrest : s.rest with
    | nil =>
        rw [hrest] at h
        exact absurd rfl h
    | cons c next =>
        rw [hrest] at h
        obtain ⟨n, hn⟩ := Nat.exists_eq_succ_of_ne_zero h
        rw [hn]
        rfl
  have hnode : Follows exprNull C
      (advance (s.rest.take (numberLength false s.rest)).length >>= fun _ =>
        numberNode p (s.rest.take (numberLength false s.rest))) ASTExpr.Complete :=
    (neutral_advance _).bind fun _ => follows_numberNode
  simp only [hdigits]
  exact hnode t C id s hs

section Contracts

variable (hp : p.Contract)

include hp

theorem follows_parseInterpolation {result : Option ASTExpr} :
    Follows exprNull (∀ e ∈ result, ASTExpr.Complete e) (parseInterpolation p result)
      ASTExpr.Complete := by
  refine (neutral_advance 2).bind fun _ => ?_
  refine follows_bind hp.expression.of_true fun e => ?_
  refine neutral_skipWhitespace.bind fun _ => follows_require_bind (follows_pure ?_)
  rintro ⟨hresult, he⟩
  have hcall : ASTExpr.Complete (.call "str".toList [e]) := .call (by simpa using he)
  cases result with
  | none => exact hcall
  | some r => exact .binary (hresult r rfl) hcall

omit hp in
theorem complete_flushSegment {segment : BreadString} {result : Option ASTExpr}
    (h : ∀ e ∈ result, ASTExpr.Complete e) :
    ∀ e ∈ flushSegment segment result, ASTExpr.Complete e := by
  intro e he
  unfold flushSegment at he
  split at he
  · exact h e he
  · cases he
    cases result with
    | none => exact .stringLiteral segment
    | some r => exact .binary (h r rfl) (.stringLiteral segment)

theorem follows_stringTurn (s : BreadString × Option ASTExpr) :
    Follows exprNull (C ∧ ∀ e ∈ s.2, ASTExpr.Complete e) (stringTurn p s)
      (Sum.elim (fun s => ∀ e ∈ s.2, ASTExpr.Complete e)
        fun s => ∀ e ∈ s.2, ASTExpr.Complete e) := by
  refine neutral_text.bind fun source => ?_
  split
  · exact follows_pure And.right
  · exact follows_pure And.right
  · refine follows_bind (follows_conseq (follows_parseInterpolation hp) (fun _ _ _ he => he)
      (fun hs => complete_flushSegment hs.2) fun _ _ hq => hq) fun e => ?_
    refine follows_pure fun hs => ?_
    rintro e' ⟨⟩
    exact hs.2
  · exact (neutral_advance 2).bind fun _ => follows_pure And.right
  · exact (neutral_advance 1).bind fun _ => follows_pure And.right

theorem follows_parseStringLiteral :
    Follows exprNull C (parseStringLiteral p) ASTExpr.Complete := by
  refine (neutral_advance 1).bind fun _ => ?_
  refine follows_bind (follows_whileLoop exprNull_allowsDiverging (follows_stringTurn hp)
    fun _ => nofun) fun s => ?_
  obtain ⟨segment, result⟩ := s
  refine follows_require_bind ?_
  cases result with
  | none => exact follows_pure fun _ => .stringLiteral segment
  | some e =>
      refine follows_pure fun hs => ?_
      have hflush := @complete_flushSegment segment _ hs.2
      cases hf : flushSegment segment (some e) with
      | none => exact hs.2 e rfl
      | some r => exact hflush r hf

theorem follows_argumentTurn (args : List ASTExpr) :
    Follows exprNull (C ∧ ∀ a ∈ args, a.Complete) (argumentTurn p args)
      (Sum.elim (fun args => ∀ a ∈ args, a.Complete) fun args => ∀ a ∈ args, a.Complete) := by
  refine neutral_peek.bind fun c => ?_
  split
  · exact follows_pure And.right
  · exact follows_pure And.right
  · refine follows_bind hp.expression.of_true fun arg => ?_
    refine neutral_skipWhitespace.bind fun _ => neutral_peek.bind fun c => ?_
    split
    · refine (neutral_advance 1).bind fun _ => neutral_skipWhitespace.bind fun _ => ?_
      exact follows_pure fun h => forall_mem_append_singleton h.1.2 h.2
    · exact follows_pure fun h => forall_mem_append_singleton h.1.2 h.2

theorem follows_parseArgumentList :
    Follows exprNull C (parseArgumentList p) fun args => ∀ a ∈ args, a.Complete := by
  refine neutral_skipWhitespace.bind fun _ => neutral_peek.bind fun c => ?_
  split
  · exact (neutral_advance 1).bind fun _ => follows_pure fun _ _ ha => nomatch ha
  · refine follows_bind (follows_whileLoop exprNull_allowsDiverging (follows_argumentTurn hp)
      fun _ _ ha => nomatch ha) fun args => ?_
    refine neutral_skipWhitespace.bind fun _ => follows_require_bind (follows_pure And.right)

/-- The items of a bracket literal that are complete. -/
def BracketItems.Complete (items : BracketItems) : Prop :=
  (∀ e ∈ items.elements, e.Complete) ∧ (∀ e ∈ items.entries, e.1.Complete) ∧
    ∀ e ∈ items.entries, e.2.Complete

theorem follows_parseBracketItem (items : BracketItems) :
    Follows exprNull (C ∧ items.Complete) (parseBracketItem p items) BracketItems.Complete := by
  refine follows_bind hp.expression.of_true fun first => ?_
  refine neutral_skipWhitespace.bind fun _ => neutral_peek.bind fun c => ?_
  split
  · refine follows_require_bind (follows_bind hp.expression.of_true fun value => ?_)
    refine follows_pure fun h => ?_
    obtain ⟨⟨⟨-, helements, hkeys, hvalues⟩, hfirst⟩, hvalue⟩ := h
    exact ⟨helements, forall_mem_append_singleton hkeys hfirst,
      forall_mem_append_singleton hvalues hvalue⟩
  · refine follows_pure fun h => ?_
    obtain ⟨⟨-, helements, hentries⟩, hfirst⟩ := h
    exact ⟨forall_mem_append_singleton helements hfirst, hentries⟩

theorem follows_bracketTurn (items : BracketItems) :
    Follows exprNull (C ∧ items.Complete) (bracketTurn p items)
      (Sum.elim BracketItems.Complete BracketItems.Complete) := by
  refine neutral_peek.bind fun c => ?_
  split
  · exact follows_pure And.right
  · exact follows_pure And.right
  · refine follows_bind (follows_parseBracketItem hp items) fun items' => ?_
    refine neutral_skipWhitespace.bind fun _ => neutral_peek.bind fun c => ?_
    split
    · refine (neutral_advance 1).bind fun _ => neutral_skipWhitespace.bind fun _ => ?_
      exact follows_pure And.right
    · exact follows_pure And.right

theorem follows_parseBracketRest (first : Option Char) :
    Follows exprNull C (parseBracketRest p first) ASTExpr.Complete := by
  unfold parseBracketRest
  split
  · refine (neutral_advance 1).bind fun _ => neutral_skipWhitespace.bind fun _ => ?_
    exact follows_require_bind (follows_pure fun _ => .dict nofun nofun)
  · exact (neutral_advance 1).bind fun _ => follows_pure fun _ => .arrayLiteral nofun
  · refine follows_bind (follows_whileLoop exprNull_allowsDiverging (follows_bracketTurn hp)
      fun _ => ⟨nofun, nofun, nofun⟩) fun items => ?_
    refine neutral_skipWhitespace.bind fun _ => follows_require_bind ?_
    split
    · exact follows_pure fun h => .dict h.2.2.1 h.2.2.2
    · exact follows_pure fun h => .arrayLiteral h.2.1

/-- `parse_array_or_dict`, at a bracket. -/
theorem triple_parseArrayOrDict {t : List ParseEvent} {next : List Char} :
    Triple (fun s => s.rest = '[' :: next ∧ Healthy t C s) (parseArrayOrDict p)
      (fun e => Healthy t (C ∧ e.Complete)) (exprNull t) := by
  refine triple_skipWhitespace_bind rfl (by decide) (triple_expect_bind ?_)
  have hrest : Follows exprNull C (advance 1 >>= fun _ => skipWhitespace >>= fun _ =>
      peek >>= parseBracketRest p) ASTExpr.Complete :=
    (neutral_advance 1).bind fun _ => neutral_skipWhitespace.bind fun _ =>
      neutral_peek.bind fun first => follows_parseBracketRest hp first
  exact triple_conseq (hrest t C id) (fun _ hs => hs.2) (fun _ _ hq => hq) (fun _ _ he => he)

theorem follows_fieldTurn (fields : List (Ident × ASTExpr)) :
    Follows exprNull (C ∧ ∀ f ∈ fields, f.2.Complete) (fieldTurn p fields)
      (Sum.elim (fun fields => ∀ f ∈ fields, f.2.Complete)
        fun fields => ∀ f ∈ fields, f.2.Complete) := by
  refine neutral_peek.bind fun c => ?_
  split
  · exact follows_pure And.right
  · exact follows_pure And.right
  · split
    · exact follows_syntaxError
    · refine (neutral_takeChars _).bind fun name => neutral_skipWhitespace.bind fun _ => ?_
      refine follows_require_bind (follows_bind hp.expression.of_true fun value => ?_)
      refine neutral_skipWhitespace.bind fun _ => neutral_peek.bind fun c => ?_
      split
      · refine (neutral_advance 1).bind fun _ => neutral_skipWhitespace.bind fun _ => ?_
        exact follows_pure fun h => forall_mem_append_singleton h.1.2 h.2
      · exact follows_pure fun h => forall_mem_append_singleton h.1.2 h.2

theorem follows_parseStructLiteral (name : Ident) :
    Follows exprNull C (parseStructLiteral p name) ASTExpr.Complete := by
  refine (neutral_advance 1).bind fun _ => neutral_skipWhitespace.bind fun _ => ?_
  refine follows_bind (follows_whileLoop exprNull_allowsDiverging (follows_fieldTurn hp)
    fun _ => nofun) fun fields => ?_
  refine neutral_skipWhitespace.bind fun _ => follows_require_bind ?_
  exact follows_pure fun h => .structLiteral h.2

theorem follows_parseAfterName (name : Ident) :
    Follows exprNull C (parseAfterName p name) ASTExpr.Complete := by
  unfold parseAfterName
  split
  · exact follows_pure fun _ => .self
  · split
    · exact follows_pure fun _ => .super
    · refine neutral_skipWhitespace.bind fun _ => neutral_peek.bind fun c => ?_
      split
      · exact follows_parseStructLiteral hp name
      · refine (neutral_advance 1).bind fun _ => ?_
        exact follows_bind (follows_parseArgumentList hp) fun args =>
          follows_pure fun h => .call h.2
      · exact follows_pure fun _ => .var name

/-- `parse_identifier_expr`, at the start of a name. -/
theorem triple_parseIdentifierExpr {t : List ParseEvent} {c : Char} {next : List Char}
    (hc : isIdentStart c = true) :
    Triple (fun s => s.rest = c :: next ∧ Healthy t C s) (parseIdentifierExpr p)
      (fun e => Healthy t (C ∧ e.Complete)) (exprNull t) := by
  have hspace : isSpace c = false := by
    rw [Bool.eq_false_iff]
    intro hspace
    unfold isSpace at hspace
    simp only [Bool.or_eq_true, beq_iff_eq, or_assoc] at hspace
    rcases hspace with rfl | rfl | rfl | rfl | rfl | rfl <;> exact absurd hc (by decide)
  have hslash : c ≠ '/' := by
    rintro rfl
    exact absurd hc (by decide)
  refine triple_skipWhitespace_bind hspace hslash (triple_peek_bind ?_)
  have hname : Follows exprNull C (takeChars isIdentChar >>= parseAfterName p)
      ASTExpr.Complete :=
    (neutral_takeChars _).bind fun name => follows_parseAfterName hp name
  rw [Option.any_some, hc]
  exact triple_conseq (hname t C id) (fun _ hs => hs.2) (fun _ _ hq => hq) (fun _ _ he => he)

theorem follows_parseOperand : Follows exprNull C (parseOperand p) ASTExpr.Complete := by
  intro t C' hC
  refine triple_text_bind fun source => ?_
  -- What the branch for the first character promises, wherever it is run.
  have hbranch : ∀ {m : Parse ASTExpr}, Follows exprNull C' m ASTExpr.Complete →
      Triple (fun s => s.rest = source ∧ Healthy t C' s) m
        (fun e => Healthy t (C' ∧ e.Complete)) (exprNull t) := fun hm =>
    triple_conseq (hm t C' id) (fun _ hs => hs.2) (fun _ _ hq => hq) (fun _ _ he => he)
  split
  · exact hbranch follows_syntaxError
  · refine hbranch ((neutral_advance 1).bind fun _ => ?_)
    refine follows_bind hp.expression.of_true fun inner => ?_
    exact neutral_skipWhitespace.bind fun _ => follows_require_bind (follows_pure And.right)
  · exact hbranch (follows_parseStringLiteral hp)
  · split
    · rename_i hnumber
      exact triple_parseNumber (numberLength_pos hnumber)
    · split
      · rename_i hbracket
        obtain rfl := beq_iff_eq.mp hbracket
        exact triple_parseArrayOrDict hp
      · split
        · rename_i hname
          exact triple_parseIdentifierExpr hp hname
        · exact hbranch follows_syntaxError

theorem follows_parsePrimary : Follows exprNull C (parsePrimary p) ASTExpr.Complete := by
  refine neutral_skipWhitespace.bind fun _ => (neutral_looksAtKeyword _).bind fun b => ?_
  split
  · exact (neutral_advance 3).bind fun _ => follows_pure fun _ => .nil
  · refine (neutral_looksAtKeyword _).bind fun b => ?_
    split
    · exact (neutral_advance 4).bind fun _ => follows_pure fun _ => .bool true
    · refine (neutral_looksAtKeyword _).bind fun b => ?_
      split
      · exact (neutral_advance 5).bind fun _ => follows_pure fun _ => .bool false
      · exact follows_parseOperand hp

theorem follows_parseMember (base : ASTExpr) (isOptionalChain : Bool) :
    Follows exprNull (C ∧ base.Complete) (parseMember p base isOptionalChain)
      ASTExpr.Complete := by
  refine neutral_skipWhitespace.bind fun _ => neutral_peek.bind fun c => ?_
  split
  · exact follows_syntaxError
  · refine (neutral_takeChars _).bind fun member => neutral_skipWhitespace.bind fun _ => ?_
    refine neutral_peek.bind fun c => ?_
    split
    · refine (neutral_advance 1).bind fun _ => ?_
      exact follows_bind (follows_parseArgumentList hp) fun args =>
        follows_pure fun h => .methodCall h.1.2 h.2
    · exact follows_pure fun h => .member h.2

theorem follows_postfixTurn (base : ASTExpr) :
    Follows exprNull (C ∧ base.Complete) (postfixTurn p base)
      (Sum.elim ASTExpr.Complete ASTExpr.Complete) := by
  refine neutral_skipWhitespace.bind fun _ => neutral_text.bind fun source => ?_
  split
  · refine (neutral_advance 1).bind fun _ => follows_bind hp.expression.of_true fun index => ?_
    refine neutral_skipWhitespace.bind fun _ => follows_require_bind ?_
    exact follows_pure fun h => .index h.1.2 h.2
  · refine (neutral_advance 2).bind fun _ => ?_
    exact follows_bind (follows_parseMember hp base true) fun e => follows_pure And.right
  · refine (neutral_advance 1).bind fun _ => ?_
    exact follows_bind (follows_parseMember hp base false) fun e => follows_pure And.right
  · exact follows_pure And.right

theorem follows_parsePostfix {base : ASTExpr} (hbase : C → base.Complete) :
    Follows exprNull C (parsePostfix p base) ASTExpr.Complete := by
  refine follows_bind (follows_whileLoop exprNull_allowsDiverging (follows_postfixTurn hp)
    hbase) fun e => ?_
  cases e with
  | null =>
      refine follows_conseq follows_false_null (fun _ _ _ he => he) ?_ fun _ _ hq => hq
      rintro ⟨-, hnull⟩
      cases hnull
  | _ => exact follows_pure And.right

theorem follows_parseUnary : Follows exprNull C (parseUnary p) ASTExpr.Complete := by
  refine neutral_skipWhitespace.bind fun _ => neutral_peek.bind fun c => ?_
  split
  · refine (neutral_advance 1).bind fun _ => ?_
    exact follows_bind hp.unary.of_true fun e => follows_pure fun h => .unary h.2
  · refine (neutral_advance 1).bind fun _ => ?_
    exact follows_bind hp.unary.of_true fun e => follows_pure fun h => .unary h.2
  · refine follows_bind (follows_testNull exprNull_allowsDiverging (follows_parsePrimary hp))
      fun base => follows_parsePostfix hp ?_
    rintro ⟨-, e, rfl, he⟩
    exact he

omit hp in
theorem follows_parseLeftAssociative {operator : List Char → Option (Char × ℕ)}
    {operand : Parse ASTExpr} (h : Follows exprNull True operand ASTExpr.Complete) :
    Follows exprNull C (parseLeftAssociative operator operand) ASTExpr.Complete := by
  refine follows_bind h.of_true fun left => neutral_skipWhitespace.bind fun _ => ?_
  refine follows_whileLoop exprNull_allowsDiverging (I := ASTExpr.Complete) ?_ And.right
  intro left
  refine neutral_text.bind fun source => ?_
  split
  · refine (neutral_advance _).bind fun _ => follows_bind h.of_true fun right => ?_
    exact neutral_skipWhitespace.bind fun _ => follows_pure fun h => .binary h.1.2 h.2
  · exact follows_pure And.right

theorem follows_parseTerm : Follows exprNull C (parseTerm p) ASTExpr.Complete :=
  follows_parseLeftAssociative (follows_parseLeftAssociative (follows_parseUnary hp))

theorem follows_parseComparison : Follows exprNull C (parseComparison p) ASTExpr.Complete := by
  refine follows_bind (follows_parseTerm hp) fun left => neutral_skipWhitespace.bind fun _ => ?_
  refine neutral_text.bind fun source => ?_
  split
  · refine (neutral_advance _).bind fun _ => ?_
    exact follows_bind (follows_parseTerm hp) fun right =>
      follows_pure fun h => .binary h.1.2 h.2
  · exact follows_pure And.right

theorem follows_parseLogicalOr : Follows exprNull C (parseLogicalOr p) ASTExpr.Complete :=
  follows_parseLeftAssociative (follows_parseLeftAssociative (follows_parseComparison hp))

theorem follows_parseWholeExpression :
    Follows exprNull C (parseWholeExpression p) ASTExpr.Complete := by
  refine follows_bind (follows_parseLogicalOr hp) fun e => ?_
  refine neutral_skipWhitespace.bind fun _ => neutral_text.bind fun left => ?_
  split
  · exact follows_pure And.right
  · refine follows_bind follows_setError fun _ => ?_
    exact follows_conseq follows_false_null (fun _ _ _ he => he) And.right fun _ _ hq => hq

theorem follows_parseExpressionStr :
    Follows exprNull C (parseExpressionStr p) ASTExpr.Complete := by
  refine neutral_text.bind fun source => (neutral_advance _).bind fun _ => ?_
  exact follows_onText (follows_parseWholeExpression hp)

end Contracts

end Expressions

end BreadLang
