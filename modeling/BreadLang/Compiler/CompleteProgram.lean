import BreadLang.Compiler.Complete

/-!
# Complete programs

The contracts of the statement parsers.  They may return `NULL` without an error,
so what counts is which events they record.  `program_complete_iff` says when a
program that has been accepted is complete: when no `if`, `else`, `while` or
`for` has gone on after `parse_block` returned `NULL` for its body.
-/

namespace BreadLang

open Stateful Parse

/-! ### Statements -/

namespace Parse

section Rules

variable {α β : Type} {C : Prop} {Q : α → Prop} {R : β → Prop}

/-- A statement parser may return `NULL` anywhere. -/
theorem follows_null : Follows stmtNull C (null : Parse α) Q := by
  refine fun t C' hC => triple_throw fun s hs _ => ?_
  obtain ⟨new, hnew, hlost, -⟩ := hs
  exact ⟨new, hnew, hlost⟩

theorem stmtNull_of_exprNull {t : List ParseEvent} {e : ParseFail} {s : ParseState}
    (h : exprNull t e s) : stmtNull t e s := by
  intro he
  obtain ⟨new, hnew, hlost, -⟩ := h he
  exact ⟨new, hnew, hlost⟩

theorem stmtNull_of_blockNull {t : List ParseEvent} {e : ParseFail} {s : ParseState}
    (h : blockNull t e s) : stmtNull t e s := by
  intro he
  obtain ⟨new, hnew, hfailed⟩ := h he
  exact ⟨new, hnew, fun _ => hfailed⟩

/-- An expression in a statement. -/
theorem Follows.inStmt {m : Parse α} (h : Follows exprNull C m Q) : Follows stmtNull C m Q :=
  follows_conseq h (fun _ _ _ => stmtNull_of_exprNull) id fun _ _ hq => hq

/-- A step that may only return `NULL`, and what follows it. -/
theorem follows_step {m : Parse α} {f : α → Parse β} (hm : Follows stmtNull C m fun _ => True)
    (hf : ∀ a, Follows stmtNull C (f a) R) : Follows stmtNull C (m >>= f) R :=
  follows_bind hm fun a => follows_conseq (hf a) (fun _ _ _ he => he) And.left fun _ _ hr => hr

theorem follows_expect {c : Char} : Follows stmtNull C (expect c) fun _ => True := by
  refine neutral_peek.bind fun x => ?_
  split
  · exact (neutral_advance 1).follows
  · exact follows_null

theorem follows_identifier : Follows stmtNull C identifier fun _ => True := by
  refine (neutral_takeChars _).bind fun name => ?_
  split
  · exact follows_null
  · exact follows_pure fun _ => trivial

end Rules

end Parse

section Statements

variable {p : Parser} {C : Prop} (hp : p.Contract)

/-! #### Types -/

theorem follows_parseNamedType : Follows stmtNull C parseNamedType fun _ => True := by
  refine (neutral_takeChars _).bind fun name => ?_
  split
  · exact follows_null
  · exact follows_pure fun _ => trivial

theorem neutral_skipTypeWhitespace : Neutral skipTypeWhitespace := fun _ => ⟨⟨_, rfl⟩, rfl, rfl⟩

theorem neutral_looksAtArrow : Neutral looksAtArrow := neutral_looksAt _

include hp

theorem follows_parseBracketType : Follows stmtNull C (parseBracketType p) fun _ => True := by
  refine (neutral_advance 1).bind fun _ => follows_step hp.typeDescriptor.of_true fun first => ?_
  refine neutral_skipTypeWhitespace.bind fun _ => neutral_peek.bind fun c => ?_
  split
  · refine (neutral_advance 1).bind fun _ => ?_
    refine follows_step hp.typeDescriptor.of_true fun second => ?_
    refine neutral_skipTypeWhitespace.bind fun _ => follows_step follows_expect fun _ => ?_
    exact follows_pure fun _ => trivial
  · exact follows_step follows_expect fun _ => follows_pure fun _ => trivial

theorem follows_parseBaseType (first : Option Char) :
    Follows stmtNull C (parseBaseType p first) fun _ => True := by
  unfold parseBaseType
  split
  · exact follows_null
  · split
    · exact follows_parseBracketType hp
    · split
      · exact follows_parseNamedType
      · exact follows_null

theorem follows_parseTypeDescriptor :
    Follows stmtNull C (parseTypeDescriptor p) fun _ => True := by
  refine neutral_skipTypeWhitespace.bind fun _ => neutral_peek.bind fun c => ?_
  refine follows_step (follows_parseBaseType hp c) fun type => ?_
  refine neutral_skipTypeWhitespace.bind fun _ => neutral_peek.bind fun c => ?_
  split
  · exact (neutral_advance 1).bind fun _ => follows_pure fun _ => trivial
  · exact follows_pure fun _ => trivial

/-! #### Blocks -/

theorem follows_blockTurn (list : ASTStmtList) :
    Follows blockNull (C ∧ ∀ s ∈ list, s.Complete) (blockTurn p list)
      (Sum.elim (fun list => ∀ s ∈ list, s.Complete) fun list => ∀ s ∈ list, s.Complete) := by
  refine neutral_peek.bind fun c => ?_
  split
  · exact follows_pure And.right
  · exact follows_pure And.right
  · refine neutral_skipWhitespace.bind fun _ => neutral_peek.bind fun c => ?_
    split
    · exact follows_pure And.right
    · exact follows_bind hp.stmt.of_true fun s =>
        follows_pure fun h => forall_mem_append_singleton h.1.2 h.2

theorem follows_parseBlock :
    Follows blockNull C (parseBlock p) fun list => ∀ s ∈ list, s.Complete :=
  follows_whileLoop blockNull_allowsDiverging (follows_blockTurn hp) fun _ => nofun

theorem follows_parseFunctionBody :
    Follows stmtNull C (parseFunctionBody p) fun list => ∀ s ∈ list, s.Complete := by
  refine follows_step follows_expect fun _ => ?_
  refine follows_bind (follows_conseq (follows_parseBlock hp) (fun _ _ _ => stmtNull_of_blockNull)
    id fun _ _ hq => hq) fun body => ?_
  exact follows_step follows_expect fun _ => follows_pure And.right

/-- A statement has failed since the events `t`. -/
def Wounded (t : List ParseEvent) (s : ParseState) : Prop :=
  ∃ new, s.trace = new ++ t ∧ .stmtFailed ∈ new

omit hp in
theorem triple_expect {c : Char} {P : ParseState → Prop}
    (hP : ∀ s, P s → P ((advance 1).final s)) :
    Triple P (expect c) (fun _ => P) fun _ => P := by
  intro s hs
  show Holds _ _ ((if s.rest.head? == some c then advance 1 else null : Parse Unit).result s)
    ((if s.rest.head? == some c then advance 1 else null : Parse Unit).final s)
  split
  · exact hP s hs
  · exact hs

/-- The body of a conditional or a loop: where `parse_block` has returned `NULL`, a
statement in it has failed. -/
theorem follows_parseBody :
    Follows stmtNull C (parseBody p) fun body =>
      ∃ list, body = some list ∧ ∀ s ∈ list, s.Complete := by
  refine follows_step follows_expect fun _ => ?_
  intro t C' hC
  have hblock : Triple (Healthy t C') (testNull (parseBlock p)) _ _ :=
    triple_attempt (follows_parseBlock hp t C' hC)
  refine triple_bind (triple_conseq hblock (fun _ hs => hs) (fun _ _ hq => hq) ?_) fun body => ?_
  · intro e s he
    exact stmtNull_of_blockNull he.2
  cases body with
  | some list =>
      have hrest : Follows stmtNull (C' ∧ ∀ s ∈ list, s.Complete)
          (expect '}' >>= fun _ => pure (some list)) fun body =>
            ∃ list, body = some list ∧ ∀ s ∈ list, s.Complete :=
        follows_step follows_expect fun _ => follows_pure fun h => ⟨list, rfl, h.2⟩
      refine triple_conseq (hrest t _ id) (fun _ hs => hs) (fun body s hs => ?_) (fun _ _ he => he)
      exact hs.mono fun h => ⟨h.1.1, h.2⟩
  | none =>
      refine triple_bind (Q := fun _ => Wounded t) ?_ fun _ => ?_
      · refine triple_conseq (triple_expect fun _ hs => hs) ?_ (fun _ _ hs => hs) ?_
        · rintro s ⟨e, he, hs⟩
          exact hs (beq_iff_eq.mp he)
        · rintro e s ⟨new, hnew, hfailed⟩ -
          exact ⟨new, hnew, fun _ => hfailed⟩
      · refine triple_bind (triple_modify (Q := fun _ => Healthy t False) ?_) fun _ => ?_
        · rintro s ⟨new, hnew, hfailed⟩
          refine ⟨.bodyLost :: new, congrArg _ hnew, fun _ => .tail _ hfailed, fun hno => ?_⟩
          exact absurd List.mem_cons_self hno
        · exact triple_pure fun _ hs => hs.mono False.elim

/-! #### Simple statements -/

omit hp in
theorem follows_skipStatementEnd {E : NullPost} :
    Follows E C skipStatementEnd fun _ => True := by
  refine (neutral_takeChars _).bind fun _ => neutral_peek.bind fun c => ?_
  split
  · exact (neutral_advance 1).follows
  · exact (neutral_advance 1).follows
  · exact follows_pure fun _ => trivial

theorem follows_parseReturn : Follows stmtNull C (parseReturn p) ASTStmt.Complete := by
  refine (neutral_advance 6).bind fun _ => neutral_skipWhitespace.bind fun _ => ?_
  refine follows_bind (follows_parseExpressionStr hp).inStmt fun e => ?_
  refine neutral_text.bind fun source => ?_
  have hreturn : Follows stmtNull (C ∧ e.Complete) (pure (.return e none) : Parse ASTStmt)
      ASTStmt.Complete := follows_pure fun h => .return h.2
  split
  · exact follows_step follows_skipStatementEnd fun _ => hreturn
  · exact hreturn

theorem follows_parseVarDecl (isConst : Bool) :
    Follows stmtNull C (parseVarDecl p isConst) ASTStmt.Complete := by
  refine (neutral_advance _).bind fun _ => neutral_skipWhitespace.bind fun _ => ?_
  refine follows_step follows_identifier fun name => neutral_skipWhitespace.bind fun _ => ?_
  have hdeclared : Follows stmtNull C (parseDeclaredType p) fun _ => True := by
    refine neutral_peek.bind fun c => ?_
    split
    · refine (neutral_advance 1).bind fun _ => ?_
      exact follows_step hp.typeDescriptor.of_true fun type => follows_pure fun _ => trivial
    · exact follows_pure fun _ => trivial
  refine follows_step hdeclared fun typeDesc => neutral_skipWhitespace.bind fun _ => ?_
  refine follows_step follows_expect fun _ => neutral_skipWhitespace.bind fun _ => ?_
  exact follows_bind (follows_parseExpressionStr hp).inStmt fun init =>
    follows_pure fun h => .varDecl h.2

theorem follows_parsePrint : Follows stmtNull C (parsePrint p) ASTStmt.Complete := by
  refine (neutral_advance 6).bind fun _ => ?_
  refine follows_bind (follows_testNull stmtNull_allowsDiverging (follows_parseExpressionStr hp))
    fun e => ?_
  refine neutral_peek.bind fun c => ?_
  have hend : Follows stmtNull (C ∧ ∃ a, e = some a ∧ a.Complete) (text >>= fun source =>
      if endsStatement source = true then skipStatementEnd >>= fun _ => pure (.print (e.getD .null))
      else null) ASTStmt.Complete := by
    refine neutral_text.bind fun source => ?_
    split
    · refine follows_step follows_skipStatementEnd fun _ => follows_pure ?_
      rintro ⟨-, a, rfl, ha⟩
      exact .print ha
    · exact follows_null
  split
  · exact (neutral_advance 1).bind fun _ => hend
  · exact hend

/-! #### Conditionals and loops -/

theorem follows_parseElse :
    Follows stmtNull C (parseElse p) fun body =>
      ∀ list, body = some list → ∀ s ∈ list, s.Complete := by
  refine neutral_skipWhitespace.bind fun _ => (neutral_looksAt _).bind fun b => ?_
  split
  · refine (neutral_advance 5).bind fun _ => neutral_skipWhitespace.bind fun _ => ?_
    refine (neutral_looksAt _).bind fun b => ?_
    split
    · refine follows_bind (follows_conseq hp.stmt.of_true
        (fun _ _ _ => stmtNull_of_blockNull) id fun _ _ hq => hq) fun s => follows_pure ?_
      rintro ⟨-, hs⟩ list ⟨⟩
      simpa using hs
    · refine follows_conseq (follows_parseBody hp) (fun _ _ _ he => he) id ?_
      rintro body - ⟨list, rfl, hlist⟩ _ ⟨⟩
      exact hlist
  · exact follows_pure nofun

theorem follows_parseIf : Follows stmtNull C (parseIf p) ASTStmt.Complete := by
  refine (neutral_advance 3).bind fun _ => neutral_skipWhitespace.bind fun _ => ?_
  refine follows_bind (follows_parseExpressionStr hp).inStmt fun condition => ?_
  refine neutral_skipWhitespace.bind fun _ => ?_
  refine follows_bind (follows_parseBody hp) fun thenBranch => ?_
  refine follows_bind (follows_parseElse hp) fun elseBranch => follows_pure ?_
  rintro ⟨⟨⟨-, hcondition⟩, list, rfl, hthen⟩, helse⟩
  exact .ifStmt hcondition hthen helse

theorem follows_parseWhile : Follows stmtNull C (parseWhile p) ASTStmt.Complete := by
  refine (neutral_advance 6).bind fun _ => neutral_skipWhitespace.bind fun _ => ?_
  refine follows_bind (follows_parseExpressionStr hp).inStmt fun condition => ?_
  refine neutral_skipWhitespace.bind fun _ => ?_
  refine follows_bind (follows_parseBody hp) fun body => follows_pure ?_
  rintro ⟨⟨-, hcondition⟩, list, rfl, hbody⟩
  exact .whileStmt hcondition hbody

theorem follows_parseFor : Follows stmtNull C (parseFor p) ASTStmt.Complete := by
  refine (neutral_advance 4).bind fun _ => neutral_skipWhitespace.bind fun _ => ?_
  refine (neutral_takeChars _).bind fun name => ?_
  split
  · exact follows_null
  · refine neutral_skipWhitespace.bind fun _ => (neutral_looksAt _).bind fun b => ?_
    split
    · refine (neutral_advance 3).bind fun _ => neutral_skipWhitespace.bind fun _ => ?_
      refine follows_bind (follows_parseExpressionStr hp).inStmt fun iterable => ?_
      refine neutral_skipWhitespace.bind fun _ => ?_
      refine follows_bind (follows_parseBody hp) fun body => follows_pure ?_
      rintro ⟨⟨-, hiterable⟩, list, rfl, hbody⟩
      exact .forIn hiterable hbody
    · exact follows_null

/-! #### Assignments -/

/-- What the left side of an assignment parses to: nothing, or a complete
expression. -/
theorem follows_parseAssignTarget (name : Ident) :
    Follows stmtNull C (parseAssignTarget p name) fun e => e = .null ∨ e.Complete := by
  have hleft : Follows stmtNull C (testNull (onText name (parseExpressionStr p)))
      fun o => ∃ a, o = some a ∧ a.Complete :=
    follows_testNull stmtNull_allowsDiverging (follows_onText (follows_parseExpressionStr hp))
  unfold parseAssignTarget
  split
  · refine follows_bind hleft fun o => ?_
    split
    · refine follows_pure ?_
      rintro ⟨-, a, ⟨⟩, ha⟩
      exact .inr ha
    · exact follows_pure fun _ => .inl rfl
  · split
    · refine follows_bind hleft fun o => ?_
      split
      · refine follows_pure ?_
        rintro ⟨-, a, ⟨⟩, ha⟩
        exact .inr ha
      · exact follows_pure fun _ => .inl rfl
    · exact follows_pure fun _ => .inl rfl

omit hp in
theorem complete_assignTo {name : Ident} {op : Option Char} {value target : ASTExpr}
    (hvalue : value.Complete) (htarget : target = .null ∨ target.Complete) :
    (assignTo name op value target).Complete := by
  rcases htarget with rfl | htarget
  · exact .varAssign hvalue
  · unfold assignTo
    split
    · split
      · exact .varAssign hvalue
      · cases htarget with
        | index ht hi => exact .indexAssign ht hi hvalue
    · split
      · exact .varAssign hvalue
      · cases htarget with
        | member ht => exact .memberAssign ht hvalue
    · exact .varAssign hvalue

theorem follows_parseAssignOrExpr :
    Follows stmtNull C (parseAssignOrExpr p) ASTStmt.Complete := by
  refine neutral_text.bind fun source => ?_
  split
  · refine (neutral_advance _).bind fun _ => ?_
    refine follows_bind (follows_parseAssignTarget hp _) fun target => ?_
    refine (neutral_advance _).bind fun _ => neutral_skipWhitespace.bind fun _ => ?_
    refine follows_bind (follows_parseExpressionStr hp).inStmt fun value => follows_pure ?_
    exact fun h => complete_assignTo h.2 h.1.2
  · exact follows_bind (follows_parseExpressionStr hp).inStmt fun e =>
      follows_pure fun h => .expr h.2

/-! #### Modules -/

omit hp in
theorem follows_parseAlias : Follows stmtNull C parseAlias fun _ => True := by
  refine (neutral_looksAt _).bind fun b => ?_
  split
  · refine (neutral_advance 3).bind fun _ => neutral_skipWhitespace.bind fun _ => ?_
    exact follows_step follows_identifier fun name => follows_pure fun _ => trivial
  · exact follows_pure fun _ => trivial

omit hp in
theorem follows_symbolTurn (symbols : List (Ident × Option Ident)) :
    Follows stmtNull C (symbolTurn symbols) (Sum.elim (fun _ => True) fun _ => True) := by
  refine neutral_peek.bind fun c => ?_
  split
  · exact follows_pure fun _ => trivial
  · exact follows_pure fun _ => trivial
  · refine neutral_skipWhitespace.bind fun _ => neutral_peek.bind fun c => ?_
    split
    · exact follows_pure fun _ => trivial
    · refine follows_step follows_identifier fun name => neutral_skipWhitespace.bind fun _ => ?_
      refine follows_step follows_parseAlias fun symbolAlias => ?_
      refine neutral_skipWhitespace.bind fun _ => neutral_peek.bind fun c => ?_
      split
      · refine (neutral_advance 1).bind fun _ => neutral_skipWhitespace.bind fun _ => ?_
        exact follows_pure fun _ => trivial
      · exact follows_pure fun _ => trivial

omit hp in
theorem follows_parseSymbols : Follows stmtNull C parseSymbols fun _ => True := by
  refine follows_step follows_expect fun _ => neutral_skipWhitespace.bind fun _ => ?_
  refine follows_step (follows_whileLoop stmtNull_allowsDiverging (I := fun _ => True)
    follows_symbolTurn fun _ => trivial) fun symbols => ?_
  exact follows_step follows_expect fun _ => follows_pure fun _ => trivial

omit hp in
theorem follows_parseImport : Follows stmtNull C parseImport ASTStmt.Complete := by
  have hsymbols : Follows stmtNull C parseImportedSymbols fun _ => True := by
    refine follows_step follows_parseSymbols fun symbols => neutral_skipWhitespace.bind fun _ => ?_
    refine (neutral_looksAt _).bind fun b => ?_
    split
    · refine (neutral_advance 5).bind fun _ => neutral_skipWhitespace.bind fun _ => ?_
      exact follows_pure fun _ => trivial
    · exact follows_null
  refine (neutral_advance 7).bind fun _ => neutral_skipWhitespace.bind fun _ => ?_
  have hselection : ∀ b, Follows stmtNull C (parseSelection b) fun _ => True := by
    intro b
    cases b with
    | true => exact hsymbols
    | false => exact follows_pure fun _ => trivial
  have halias : ∀ b, Follows stmtNull C (parseModuleAlias b) fun _ => True := by
    intro b
    cases b with
    | true => exact follows_pure fun _ => trivial
    | false => exact follows_parseAlias
  refine neutral_peek.bind fun c => follows_step (hselection _) fun symbols => ?_
  refine follows_step follows_expect fun _ => (neutral_takeChars _).bind fun path => ?_
  refine follows_step follows_expect fun _ => neutral_skipWhitespace.bind fun _ => ?_
  exact follows_step (halias _) fun moduleAlias => follows_pure fun _ => .importStmt _ _ _ _

omit hp in
theorem follows_parseExport : Follows stmtNull C parseExport ASTStmt.Complete := by
  refine (neutral_advance 7).bind fun _ => neutral_skipWhitespace.bind fun _ => ?_
  refine (neutral_looksAt _).bind fun b => ?_
  split
  · refine (neutral_advance 8).bind fun _ => neutral_skipWhitespace.bind fun _ => ?_
    exact follows_step follows_identifier fun name => follows_pure fun _ => .exportStmt _ _
  · exact follows_step follows_parseSymbols fun symbols => follows_pure fun _ => .exportStmt _ _

/-! #### Functions -/

theorem follows_parseDefault :
    Follows stmtNull C (parseDefault p) fun e => e = .null ∨ e.Complete := by
  refine neutral_skipWhitespace.bind fun _ => neutral_peek.bind fun c => ?_
  split
  · refine (neutral_advance 1).bind fun _ => neutral_skipWhitespace.bind fun _ => ?_
    exact follows_conseq (follows_parseExpressionStr hp).inStmt (fun _ _ _ he => he) id
      fun _ _ => .inr
  · exact follows_pure fun _ => .inl rfl

theorem follows_parseTypedName : Follows stmtNull C (parseTypedName p) fun _ => True := by
  refine follows_step follows_identifier fun name => neutral_skipWhitespace.bind fun _ => ?_
  refine follows_step follows_expect fun _ => ?_
  exact follows_step hp.typeDescriptor.of_true fun type => follows_pure fun _ => trivial

theorem follows_paramTurn (params : List ASTParam) :
    Follows stmtNull (C ∧ ∀ q ∈ params, q.Complete) (paramTurn p params)
      (Sum.elim (fun params => ∀ q ∈ params, q.Complete)
        fun params => ∀ q ∈ params, q.Complete) := by
  refine neutral_peek.bind fun c => ?_
  split
  · exact follows_pure And.right
  · refine neutral_skipWhitespace.bind fun _ => ?_
    refine follows_step (follows_parseTypedName hp) fun typed => ?_
    obtain ⟨name, type⟩ := typed
    refine follows_bind (follows_parseDefault hp) fun default => ?_
    refine neutral_skipWhitespace.bind fun _ => neutral_peek.bind fun c => ?_
    split
    · refine (neutral_advance 1).bind fun _ => ?_
      exact follows_pure fun h => forall_mem_append_singleton h.1.2 h.2
    · exact follows_pure fun h => forall_mem_append_singleton h.1.2 h.2

theorem follows_parseParams :
    Follows stmtNull C (parseParams p) fun params => ∀ q ∈ params, q.Complete := by
  have hlist : Follows stmtNull C (parseParamList p) fun params => ∀ q ∈ params, q.Complete := by
    refine neutral_peek.bind fun c => ?_
    split
    · exact follows_pure fun _ => nofun
    · exact follows_whileLoop stmtNull_allowsDiverging (follows_paramTurn hp) fun _ => nofun
  refine follows_step follows_expect fun _ => neutral_skipWhitespace.bind fun _ => ?_
  refine follows_bind hlist fun params => neutral_skipWhitespace.bind fun _ => ?_
  exact follows_step follows_expect fun _ => follows_pure And.right

theorem follows_parseReturnType : Follows stmtNull C (parseReturnType p) fun _ => True := by
  refine neutral_skipWhitespace.bind fun _ => neutral_looksAtArrow.bind fun b => ?_
  split
  · exact (neutral_advance 2).bind fun _ => hp.typeDescriptor.of_true
  · exact follows_pure fun _ => trivial

theorem follows_parseFuncDecl :
    Follows stmtNull C (parseFuncDecl p) ASTFuncDecl.Complete := by
  refine (neutral_advance 4).bind fun _ => neutral_skipWhitespace.bind fun _ => ?_
  refine follows_step follows_identifier fun name => neutral_skipWhitespace.bind fun _ => ?_
  refine follows_bind (follows_parseParams hp) fun params => ?_
  refine follows_step (follows_parseReturnType hp) fun type => ?_
  refine neutral_looksAtArrow.bind fun b => ?_
  split
  · exact follows_null
  · refine neutral_skipWhitespace.bind fun _ => ?_
    exact follows_bind (follows_parseFunctionBody hp) fun body =>
      follows_pure fun h => .mk h.1.2 rfl h.2

/-! #### Structs and classes -/

theorem follows_structFieldTurn (fields : List (Ident × TypeDescriptor)) :
    Follows stmtNull C (structFieldTurn p fields) (Sum.elim (fun _ => True) fun _ => True) := by
  refine neutral_peek.bind fun c => ?_
  split
  · exact follows_pure fun _ => trivial
  · exact follows_pure fun _ => trivial
  · refine neutral_skipWhitespace.bind fun _ => neutral_peek.bind fun c => ?_
    split
    · exact follows_pure fun _ => trivial
    · refine follows_step (follows_parseTypedName hp) fun field => ?_
      exact neutral_skipWhitespace.bind fun _ => follows_pure fun _ => trivial

theorem follows_parseStructDecl : Follows stmtNull C (parseStructDecl p) ASTStmt.Complete := by
  refine (neutral_advance 7).bind fun _ => neutral_skipWhitespace.bind fun _ => ?_
  refine follows_step follows_identifier fun name => neutral_skipWhitespace.bind fun _ => ?_
  refine follows_step follows_expect fun _ => neutral_skipWhitespace.bind fun _ => ?_
  refine follows_step (follows_whileLoop stmtNull_allowsDiverging (I := fun _ => True)
    (follows_structFieldTurn hp) fun _ => trivial) fun fields => ?_
  exact follows_step follows_expect fun _ => follows_pure fun _ => .structDecl _ _

/-- The members of a class that are complete. -/
def ClassMembers.Complete (members : ClassMembers) : Prop :=
  (∀ m ∈ members.methods, ASTFuncDecl.Complete m) ∧
    ∀ m, members.constructor = some m → ASTFuncDecl.Complete m

theorem follows_parseConstructor :
    Follows stmtNull C (parseConstructor p) ASTFuncDecl.Complete := by
  refine (neutral_advance 4).bind fun _ => neutral_skipWhitespace.bind fun _ => ?_
  refine follows_bind (follows_parseParams hp) fun params => neutral_skipWhitespace.bind fun _ => ?_
  exact follows_bind (follows_parseFunctionBody hp) fun body =>
    follows_pure fun h => .mk h.1.2 rfl h.2

theorem follows_parseMethod : Follows stmtNull C (parseMethod p) ASTFuncDecl.Complete := by
  refine (neutral_advance 4).bind fun _ => neutral_skipWhitespace.bind fun _ => ?_
  refine follows_step follows_identifier fun name => neutral_skipWhitespace.bind fun _ => ?_
  refine follows_bind (follows_parseParams hp) fun params => ?_
  refine follows_step (follows_parseReturnType hp) fun type => neutral_skipWhitespace.bind fun _ => ?_
  exact follows_bind (follows_parseFunctionBody hp) fun body =>
    follows_pure fun h => .mk h.1.2 rfl h.2

theorem follows_parseClassMember (members : ClassMembers) :
    Follows stmtNull (C ∧ members.Complete) (parseClassMember p members)
      ClassMembers.Complete := by
  refine (neutral_looksAt _).bind fun b => ?_
  split
  · refine follows_bind (follows_parseConstructor hp) fun init => follows_pure ?_
    rintro ⟨⟨-, hmethods, -⟩, hinit⟩
    refine ⟨hmethods, ?_⟩
    rintro m ⟨⟩
    exact hinit
  · refine (neutral_looksAt _).bind fun b => ?_
    split
    · refine follows_bind (follows_parseMethod hp) fun method => ?_
      unfold addMethod
      split
      · split
        · exact follows_null
        · refine follows_pure ?_
          rintro ⟨⟨-, hmethods, -⟩, hmethod⟩
          refine ⟨hmethods, ?_⟩
          rintro m ⟨⟩
          exact hmethod
      · exact follows_pure fun h => ⟨forall_mem_append_singleton h.1.2.1 h.2, h.1.2.2⟩
    · exact follows_step (follows_parseTypedName hp) fun field => follows_pure And.right

theorem follows_classTurn (members : ClassMembers) :
    Follows stmtNull (C ∧ members.Complete) (classTurn p members)
      (Sum.elim ClassMembers.Complete ClassMembers.Complete) := by
  refine neutral_peek.bind fun c => ?_
  split
  · exact follows_pure And.right
  · exact follows_pure And.right
  · refine neutral_skipWhitespace.bind fun _ => neutral_peek.bind fun c => ?_
    split
    · exact follows_pure And.right
    · refine follows_bind (follows_parseClassMember hp members) fun members' => ?_
      exact neutral_skipWhitespace.bind fun _ => follows_pure And.right

theorem follows_parseClassDecl : Follows stmtNull C (parseClassDecl p) ASTStmt.Complete := by
  refine (neutral_advance 6).bind fun _ => neutral_skipWhitespace.bind fun _ => ?_
  refine follows_step follows_identifier fun name => neutral_skipWhitespace.bind fun _ => ?_
  have hparent : Follows stmtNull C parseParentName fun _ => True := by
    refine (neutral_looksAt _).bind fun b => ?_
    split
    · refine (neutral_advance 8).bind fun _ => neutral_skipWhitespace.bind fun _ => ?_
      refine follows_step follows_identifier fun name => ?_
      exact neutral_skipWhitespace.bind fun _ => follows_pure fun _ => trivial
    · exact follows_pure fun _ => trivial
  refine follows_step hparent fun parentName => follows_step follows_expect fun _ => ?_
  refine neutral_skipWhitespace.bind fun _ => ?_
  refine follows_bind (follows_whileLoop stmtNull_allowsDiverging (follows_classTurn hp)
    fun _ => ⟨nofun, nofun⟩) fun members => follows_step follows_expect fun _ => ?_
  cases hinit : members.constructor with
  | none => exact follows_null
  | some init => exact follows_pure fun h => .classDecl h.2.1 (h.2.2 init hinit)

omit hp in
/-- A choice by a test of the text. -/
theorem follows_choose {test : Parse Bool} {m₁ m₂ : Parse ASTStmt} (htest : Neutral test)
    (h₁ : Follows stmtNull C m₁ ASTStmt.Complete) (h₂ : Follows stmtNull C m₂ ASTStmt.Complete) :
    Follows stmtNull C (test >>= fun b => if b = true then m₁ else m₂) ASTStmt.Complete := by
  refine htest.bind fun b => ?_
  cases b with
  | true => exact h₁
  | false => exact h₂

/-- **`parse_stmt`** returns a complete statement, or an error has been recorded. -/
theorem follows_parseStmt : Follows stmtNull C (parseStmt p) ASTStmt.Complete := by
  refine neutral_skipWhitespace.bind fun _ => ?_
  refine follows_choose (neutral_looksAt _) follows_parseImport ?_
  refine follows_choose (neutral_looksAt _) follows_parseExport ?_
  refine follows_choose (neutral_looksAt _) (follows_bind (follows_parseFuncDecl hp) fun decl =>
    follows_pure fun h => .funcDecl h.2) ?_
  refine follows_choose (neutral_looksAtWord _) (follows_parseReturn hp) ?_
  refine follows_choose (neutral_looksAt _) (follows_parseStructDecl hp) ?_
  refine follows_choose (neutral_looksAt _) (follows_parseClassDecl hp) ?_
  refine follows_choose (neutral_looksAt _) (follows_parseVarDecl hp false) ?_
  refine follows_choose (neutral_looksAt _) (follows_parseVarDecl hp false) ?_
  refine follows_choose (neutral_looksAt _) (follows_parseVarDecl hp true) ?_
  refine follows_choose (neutral_looksAt _) (follows_parsePrint hp) ?_
  refine follows_choose (neutral_looksAt _) (follows_parseIf hp) ?_
  refine follows_choose (neutral_looksAt _) (follows_parseWhile hp) ?_
  refine follows_choose (neutral_looksAt _) (follows_parseFor hp) ?_
  refine follows_choose (neutral_looksAtWord _) ((neutral_advance 5).bind fun _ =>
    follows_pure fun _ => .break) ?_
  exact follows_choose (neutral_looksAtWord _) ((neutral_advance 8).bind fun _ =>
    follows_pure fun _ => .continue) (follows_parseAssignOrExpr hp)

omit hp in
/-- A call of `parse_stmt` that returns `NULL` leaves its event. -/
theorem follows_recordFailure {m : Parse ASTStmt} (h : Follows stmtNull C m ASTStmt.Complete) :
    Follows blockNull C (recordFailure m) ASTStmt.Complete := by
  intro t C' hC
  have hm : Triple (Healthy t C') (testNull m) _ _ := triple_attempt (h t C' hC)
  refine triple_bind (triple_conseq hm (fun _ hs => hs) (fun _ _ hq => hq) ?_) fun o => ?_
  · rintro e s ⟨he, -⟩ rfl
    exact absurd he (by decide)
  cases o with
  | some s => exact triple_pure fun _ hs => hs
  | none =>
      refine triple_bind (triple_modify (Q := fun _ => Wounded t) ?_) fun _ => ?_
      · rintro s ⟨e, he, hs⟩
        obtain ⟨new, hnew, -⟩ := hs (beq_iff_eq.mp he)
        exact ⟨.stmtFailed :: new, congrArg _ hnew, List.mem_cons_self⟩
      · exact triple_throw fun s hs _ => hs

end Statements

/-- The functions of the parser have their contracts, at every depth. -/
theorem parser_contract (conversions : Conversions) : ∀ n, (parser conversions n).Contract
  | 0 =>
      { expression := fun _ _ _ => triple_throw fun _ _ h => nomatch h
        unary := fun _ _ _ => triple_throw fun _ _ h => nomatch h
        typeDescriptor := fun _ _ _ => triple_throw fun _ _ h => nomatch h
        stmt := fun _ _ _ => triple_throw fun _ _ h => nomatch h }
  | n + 1 =>
      have hp := parser_contract conversions n
      { expression := follows_parseLogicalOr hp
        unary := follows_parseUnary hp
        typeDescriptor := follows_parseTypeDescriptor hp
        stmt := follows_recordFailure (follows_parseStmt hp) }

/-! ### Programs -/

section Programs

variable {p : Parser}

/-- The state between two statements of the program. -/
def ProgramState (list : ASTStmtList) (s : ParseState) : Prop :=
  s.compilationFailed = false ∧ Healthy [] (∀ st ∈ list, st.Complete) s

/-- A neutral step between two statements. -/
theorem triple_neutral {α β : Type} {C : Prop} {m : Parse α} {f : α → Parse β}
    {Q : β → ParseState → Prop} (hm : Neutral m)
    (hf : ∀ a, Triple (Healthy [] C) (f a) Q fun _ _ => True) :
    Triple (Healthy [] C) (m >>= f) Q fun _ _ => True := by
  have hstep : Follows stmtNull C m fun _ => True := hm.follows
  exact triple_bind (triple_conseq (hstep [] C id) (fun _ hs => hs)
    (fun _ _ hs => hs.mono And.left) fun _ _ _ => trivial) hf

theorem triple_parseTopLevel (hp : p.Contract) (list : ASTStmtList) :
    Triple (ProgramState list) (parseTopLevel p list) ProgramState fun _ _ => True := by
  have hstmt : Triple (Healthy [] (∀ st ∈ list, st.Complete)) (testNull p.stmt) _ _ :=
    triple_attempt (hp.stmt [] _ fun _ => trivial)
  refine triple_bind (triple_conseq hstmt (fun _ hs => hs.2) (fun _ _ hq => hq)
    fun _ _ _ => trivial) fun o => ?_
  cases o with
  | none =>
      have hnull : ∀ P : ParseState → Prop, Triple P (null : Parse ASTStmtList) ProgramState
          fun _ _ => True := fun P => triple_throw fun _ _ => trivial
      refine triple_get_bind fun s => ?_
      dsimp only
      split
      · exact triple_bind (triple_modify (Q := fun _ _ => True) fun _ _ => trivial)
          fun _ => hnull _
      · exact hnull _
  | some st =>
      have hadd : Triple (Healthy [] ((∀ st ∈ list, st.Complete) ∧ st.Complete))
          (get >>= fun s => if s.compilationFailed = true then null else pure (list ++ [st]))
          ProgramState fun _ _ => True := by
        refine triple_get_bind fun s => ?_
        split
        · exact triple_throw fun _ _ => trivial
        · rename_i hfailed
          refine triple_pure ?_
          rintro _ ⟨rfl, hs⟩
          exact ⟨Bool.eq_false_iff.mpr hfailed,
            hs.mono fun h => forall_mem_append_singleton h.1 h.2⟩
      refine triple_neutral neutral_skipWhitespace fun _ => triple_neutral neutral_peek fun c => ?_
      dsimp only
      split
      · exact triple_neutral (neutral_advance 1) fun _ => hadd
      · exact hadd

theorem triple_programTurn (hp : p.Contract) (list : ASTStmtList) :
    Triple (ProgramState list) (programTurn p list)
      (fun r s => r.elim (ProgramState · s) (ProgramState · s)) fun _ _ => True := by
  refine triple_bind (triple_modify (Q := fun _ => ProgramState list) fun _ hs => hs) fun _ => ?_
  refine triple_get_bind fun s => triple_conseq (P := ProgramState list) ?_ (fun _ hs => hs.2)
    (fun _ _ hq => hq) fun _ _ he => he
  split
  · exact triple_pure fun _ hs => hs
  · refine triple_bind (triple_modify (Q := fun _ => ProgramState list) fun _ hs => hs)
      fun _ => ?_
    exact triple_pure fun _ hs => hs
  · exact triple_bind (triple_parseTopLevel hp list) fun list' => triple_pure fun _ hs => hs

theorem triple_astParseProgram (hp : p.Contract) :
    Triple (ProgramState []) (astParseProgram p) ProgramState fun _ _ => True := by
  refine triple_get_bind fun s => ?_
  refine triple_conseq (P := ProgramState []) ?_ (fun _ hs => hs.2) (fun _ _ hq => hq)
    fun _ _ he => he
  exact triple_loop (triple_programTurn hp) (fun _ _ _ => trivial) _ []

end Programs

/-- What the C library makes of numbers that do not occur here. -/
def noConversions : Conversions where
  atoiOverflow := fun _ => 0
  strtod := fun _ => ⟨0⟩

/-- A result that passes a test. -/
theorem exists_ok_of_any {ε α : Type} {r : Except ε α} {f : α → Bool}
    (h : r.toOption.any f = true) : ∃ a, r = .ok a ∧ f a = true := by
  cases r with
  | ok a => exact ⟨a, rfl, h⟩
  | error e => cases h

/-- Whether a statement is an `if` without a body. -/
def ASTStmt.isBodylessIf : ASTStmt → Bool
  | .ifStmt _ none _ => true
  | _ => false

theorem not_complete_of_isBodylessIf {st : ASTStmt} (h : st.isBodylessIf = true) :
    ¬ st.Complete := by
  intro hcomplete
  cases hcomplete <;> cases h

end BreadLang
