import BreadLang.Compiler.StmtParser

/-!
# The parser never goes back

What a function of the parser leaves of the text is an end of the text that it started with,
whether it succeeds or fails.  A text of its own (`onText`) is put away at the end.
-/

namespace BreadLang

open Stateful Parse

/-- **A function of the parser advances**, or stays where it is. -/
def Advances {α : Type} (m : Parse α) : Prop :=
  ∀ s : ParseState, (m.final s).rest <:+ s.rest

section Rules

variable {α β : Type} {m : Parse α} {f : α → Parse β}

theorem advances_pure (a : α) : Advances (pure a : Parse α) :=
  fun _ => List.suffix_rfl

theorem advances_throw (e : ParseFail) : Advances (throw e : Parse α) :=
  fun _ => List.suffix_rfl

theorem Advances.bind (hm : Advances m) (hf : ∀ a, Advances (f a)) : Advances (m >>= f) := by
  intro s
  rw [final_bind]
  cases m.result s with
  | ok a => exact (hf a _).trans (hm s)
  | error e => exact hm s

theorem Advances.map {g : α → β} (hm : Advances m) : Advances (m >>= fun a => pure (g a)) :=
  hm.bind fun _ => advances_pure _

theorem Advances.testNull (hm : Advances m) : Advances (testNull m) := by
  intro s
  rw [Parse.testNull, final_attempt]
  exact hm s

theorem advances_text : Advances text :=
  fun _ => List.suffix_rfl

theorem advances_peek : Advances peek :=
  fun _ => List.suffix_rfl

theorem advances_looksAtKeyword (word : List Char) : Advances (looksAtKeyword word) :=
  fun _ => List.suffix_rfl

theorem advances_advance (n : ℕ) : Advances (advance n) :=
  fun s => List.drop_suffix n s.rest

theorem advances_takeChars (p : Char → Bool) : Advances (takeChars p) :=
  fun _ => List.dropWhile_suffix p

theorem skip_suffix (inComment : Bool) (source : List Char) :
    skipSpaceAndComments inComment source <:+ source := by
  induction source generalizing inComment with
  | nil => exact List.suffix_rfl
  | cons c source ih =>
      rw [skipSpaceAndComments]
      split
      · exact (ih _).trans (List.suffix_cons _ _)
      · split
        · exact (ih _).trans (List.suffix_cons _ _)
        · split
          · exact (ih _).trans (List.suffix_cons _ _)
          · exact List.suffix_rfl

theorem advances_skipWhitespace : Advances skipWhitespace :=
  fun s => skip_suffix false s.rest

theorem advances_null : Advances (null : Parse α) :=
  fun _ => List.suffix_rfl

theorem advances_syntaxError (message : String) : Advances (syntaxError message : Parse α) :=
  fun _ => List.suffix_rfl

theorem advances_require (c : Char) (message : String) : Advances (require c message) := by
  refine advances_peek.bind fun first => ?_
  split
  · exact advances_advance 1
  · exact advances_syntaxError _

theorem advances_expect (c : Char) : Advances (expect c) := by
  refine advances_peek.bind fun first => ?_
  split
  · exact advances_advance 1
  · exact advances_null

theorem advances_loop {turn : α → Parse (α ⊕ β)} (hturn : ∀ a, Advances (turn a)) :
    ∀ n a, Advances (loop .diverges turn n a) := by
  intro n
  induction n with
  | zero => exact fun _ => advances_throw _
  | succ n ih =>
      refine fun a => (hturn a).bind fun next => ?_
      cases next with
      | inl a => exact ih a
      | inr b => exact advances_pure b

theorem advances_whileLoop {turn : α → Parse (α ⊕ β)} (hturn : ∀ a, Advances (turn a)) (a : α) :
    Advances (whileLoop turn a) :=
  advances_text.bind fun _ => advances_loop hturn _ a

end Rules

/-! ### Expressions -/

/-- The calls of the expression parser advance. -/
structure AdvancesExpr (p : Parser) : Prop where
  expression : Advances p.expression
  unary : Advances p.unary

section Expressions

variable {p : Parser} (hp : AdvancesExpr p)
include hp

omit hp in
theorem advances_parseNumber : Advances (parseNumber p) := by
  refine advances_text.bind fun source => (advances_advance _).bind fun _ => ?_
  split
  · exact advances_null
  · unfold numberNode
    split
    · exact advances_syntaxError _
    · split <;> exact advances_pure _

theorem advances_parseInterpolation (result : Option ASTExpr) :
    Advances (parseInterpolation p result) :=
  (advances_advance 2).bind fun _ => hp.expression.bind fun _ =>
    advances_skipWhitespace.bind fun _ => (advances_require _ _).bind fun _ => advances_pure _

theorem advances_stringTurn (s : BreadString × Option ASTExpr) : Advances (stringTurn p s) := by
  refine advances_text.bind fun source => ?_
  split
  · exact advances_pure _
  · exact advances_pure _
  · exact (advances_parseInterpolation hp _).map
  · exact (advances_advance 2).map
  · exact (advances_advance 1).map

theorem advances_parseStringLiteral : Advances (parseStringLiteral p) := by
  refine (advances_advance 1).bind fun _ =>
    (advances_whileLoop (advances_stringTurn hp) _).bind fun final =>
      (advances_require _ _).bind fun _ => ?_
  obtain ⟨segment, result⟩ := final
  cases result <;> exact advances_pure _

theorem advances_argumentTurn (args : List ASTExpr) : Advances (argumentTurn p args) := by
  refine advances_peek.bind fun c => ?_
  split
  · exact advances_pure _
  · exact advances_pure _
  · refine hp.expression.bind fun arg => advances_skipWhitespace.bind fun _ =>
      advances_peek.bind fun c => ?_
    split
    · exact (advances_advance 1).bind fun _ => advances_skipWhitespace.map
    · exact advances_pure _

theorem advances_parseArgumentList : Advances (parseArgumentList p) := by
  refine advances_skipWhitespace.bind fun _ => advances_peek.bind fun c => ?_
  split
  · exact (advances_advance 1).map
  · exact (advances_whileLoop (advances_argumentTurn hp) _).bind fun _ =>
      advances_skipWhitespace.bind fun _ => (advances_require _ _).map

theorem advances_parseBracketItem (items : BracketItems) :
    Advances (parseBracketItem p items) := by
  refine hp.expression.bind fun first => advances_skipWhitespace.bind fun _ =>
    advances_peek.bind fun c => ?_
  split
  · exact (advances_require _ _).bind fun _ => hp.expression.map
  · exact advances_pure _

theorem advances_bracketTurn (items : BracketItems) : Advances (bracketTurn p items) := by
  refine advances_peek.bind fun c => ?_
  split
  · exact advances_pure _
  · exact advances_pure _
  · refine (advances_parseBracketItem hp items).bind fun _ => advances_skipWhitespace.bind fun _ =>
      advances_peek.bind fun c => ?_
    split
    · exact (advances_advance 1).bind fun _ => advances_skipWhitespace.map
    · exact advances_pure _

theorem advances_parseArrayOrDict : Advances (parseArrayOrDict p) := by
  refine advances_skipWhitespace.bind fun _ => (advances_expect _).bind fun _ =>
    advances_skipWhitespace.bind fun _ => advances_peek.bind fun first => ?_
  unfold parseBracketRest
  split
  · exact (advances_advance 1).bind fun _ => advances_skipWhitespace.bind fun _ =>
      (advances_require _ _).map
  · exact (advances_advance 1).map
  · refine (advances_whileLoop (advances_bracketTurn hp) _).bind fun items =>
      advances_skipWhitespace.bind fun _ => (advances_require _ _).bind fun _ => ?_
    split <;> exact advances_pure _

theorem advances_fieldTurn (fields : List (Ident × ASTExpr)) : Advances (fieldTurn p fields) := by
  refine advances_peek.bind fun c => ?_
  split
  · exact advances_pure _
  · exact advances_pure _
  · split
    · exact advances_syntaxError _
    · refine (advances_takeChars _).bind fun _ => advances_skipWhitespace.bind fun _ =>
        (advances_require _ _).bind fun _ => hp.expression.bind fun _ =>
          advances_skipWhitespace.bind fun _ => advances_peek.bind fun c => ?_
      split
      · exact (advances_advance 1).bind fun _ => advances_skipWhitespace.map
      · exact advances_pure _

theorem advances_parseAfterName (name : Ident) : Advances (parseAfterName p name) := by
  unfold parseAfterName
  split
  · exact advances_pure _
  · split
    · exact advances_pure _
    · refine advances_skipWhitespace.bind fun _ => advances_peek.bind fun c => ?_
      split
      · exact (advances_advance 1).bind fun _ => advances_skipWhitespace.bind fun _ =>
          (advances_whileLoop (advances_fieldTurn hp) _).bind fun _ =>
            advances_skipWhitespace.bind fun _ => (advances_require _ _).map
      · exact (advances_advance 1).bind fun _ => (advances_parseArgumentList hp).map
      · exact advances_pure _

theorem advances_parseIdentifierExpr : Advances (parseIdentifierExpr p) := by
  refine advances_skipWhitespace.bind fun _ => advances_peek.bind fun c => ?_
  split
  · exact (advances_takeChars _).bind fun _ => advances_parseAfterName hp _
  · exact advances_null

theorem advances_parseOperand : Advances (parseOperand p) := by
  refine advances_text.bind fun source => ?_
  split
  · exact advances_syntaxError _
  · exact (advances_advance 1).bind fun _ => hp.expression.bind fun _ =>
      advances_skipWhitespace.bind fun _ => (advances_require _ _).map
  · exact advances_parseStringLiteral hp
  · split
    · exact advances_parseNumber
    · split
      · exact advances_parseArrayOrDict hp
      · split
        · exact advances_parseIdentifierExpr hp
        · exact advances_syntaxError _

theorem advances_parsePrimary : Advances (parsePrimary p) := by
  refine advances_skipWhitespace.bind fun _ => (advances_looksAtKeyword _).bind fun _ => ?_
  split
  · exact (advances_advance 3).map
  · refine (advances_looksAtKeyword _).bind fun _ => ?_
    split
    · exact (advances_advance 4).map
    · refine (advances_looksAtKeyword _).bind fun _ => ?_
      split
      · exact (advances_advance 5).map
      · exact advances_parseOperand hp

theorem advances_parseMember (base : ASTExpr) (isOptionalChain : Bool) :
    Advances (parseMember p base isOptionalChain) := by
  refine advances_skipWhitespace.bind fun _ => advances_peek.bind fun c => ?_
  split
  · exact advances_syntaxError _
  · refine (advances_takeChars _).bind fun _ => advances_skipWhitespace.bind fun _ =>
      advances_peek.bind fun c => ?_
    split
    · exact (advances_advance 1).bind fun _ => (advances_parseArgumentList hp).map
    · exact advances_pure _

theorem advances_postfixTurn (base : ASTExpr) : Advances (postfixTurn p base) := by
  refine advances_skipWhitespace.bind fun _ => advances_text.bind fun source => ?_
  split
  · exact (advances_advance 1).bind fun _ => hp.expression.bind fun _ =>
      advances_skipWhitespace.bind fun _ => (advances_require _ _).map
  · exact (advances_advance 2).bind fun _ => (advances_parseMember hp _ _).map
  · exact (advances_advance 1).bind fun _ => (advances_parseMember hp _ _).map
  · exact advances_pure _

theorem advances_parsePostfix (base : ASTExpr) : Advances (parsePostfix p base) := by
  refine (advances_whileLoop (advances_postfixTurn hp) base).bind fun e => ?_
  split
  · exact advances_null
  · exact advances_pure _

theorem advances_parseUnary : Advances (parseUnary p) := by
  refine advances_skipWhitespace.bind fun _ => advances_peek.bind fun c => ?_
  split
  · exact (advances_advance 1).bind fun _ => hp.unary.map
  · exact (advances_advance 1).bind fun _ => hp.unary.map
  · exact (advances_parsePrimary hp).testNull.bind fun _ => advances_parsePostfix hp _

omit hp in
theorem advances_leftAssociative {operator : List Char → Option (Char × ℕ)}
    {operand : Parse ASTExpr} (hoperand : Advances operand) :
    Advances (parseLeftAssociative operator operand) := by
  refine hoperand.bind fun left => advances_skipWhitespace.bind fun _ =>
    advances_whileLoop (fun left => advances_text.bind fun source => ?_) left
  split
  · exact (advances_advance _).bind fun _ => hoperand.bind fun _ => advances_skipWhitespace.map
  · exact advances_pure _

theorem advances_parseTerm : Advances (parseTerm p) :=
  advances_leftAssociative (advances_leftAssociative (advances_parseUnary hp))

theorem advances_parseComparison : Advances (parseComparison p) := by
  refine (advances_parseTerm hp).bind fun left => advances_skipWhitespace.bind fun _ =>
    advances_text.bind fun source => ?_
  split
  · exact (advances_advance _).bind fun _ => (advances_parseTerm hp).map
  · exact advances_pure _

theorem advances_parseLogicalOr : Advances (parseLogicalOr p) :=
  advances_leftAssociative (advances_leftAssociative (advances_parseComparison hp))

end Expressions

/-- **The expression parser never goes back.** -/
theorem advancesExpr_calls (conversions : Conversions) : ∀ n, AdvancesExpr (parser conversions n)
  | 0 => ⟨advances_throw _, advances_throw _⟩
  | n + 1 =>
      have ih := advancesExpr_calls conversions n
      ⟨advances_parseLogicalOr ih, advances_parseUnary ih⟩

end BreadLang
