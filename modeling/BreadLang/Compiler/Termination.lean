import BreadLang.Compiler.Progress

/-!
# The parser ends within its text

The statements, and the loop of `ast_parse_program`.  Every statement that is parsed has read some
of the text, so no loop and no recursion of the parser goes on for ever.
-/

namespace BreadLang

open Stateful Parse

section Rules

variable {β : Type} {f : Unit → Parse β} {source : List Char} {Q : β → List Char → Prop}

/-- An event that is recorded. -/
theorem moves_record {event : ParseEvent} (hf : Moves (f ()) source Q) :
    Moves (record event >>= f) source Q := by
  rintro s rfl
  exact hf { s with trace := event :: s.trace } rfl

theorem moves_get {f : ParseState → Parse β} (hf : ∀ t, Moves (f t) source Q) :
    Moves (get >>= f) source Q := by
  intro s hs
  exact hf s s hs

/-- A choice by the word at the pointer. -/
theorem moves_choose {word : List Char} {m m' : Parse β}
    (hm : word.length ≤ source.length → Moves m source Q) (hm' : Moves m' source Q) :
    Moves (looksAt word >>= fun found => if found = true then m else m') source Q := by
  refine moves_looksAt fun found hfound => ?_
  split
  · next h => exact hm (hfound h)
  · exact hm'

theorem moves_chooseWord {word : List Char} {m m' : Parse β}
    (hm : word.length ≤ source.length → Moves m source Q) (hm' : Moves m' source Q) :
    Moves (looksAtWord word >>= fun found => if found = true then m else m') source Q := by
  refine moves_looksAtWord fun found hfound => ?_
  split
  · next h => exact hm (hfound h)
  · exact hm'

end Rules

section Statements

variable {p : Parser} {k : ℕ} (hp : p.MovesBelow k) {source : List Char}
include hp

/-! ### Blocks -/

theorem blockTurn_getsOn : GetsOn (blockTurn p) k := by
  intro list source hk
  refine moves_peek ?_
  split
  · exact moves_last
  · exact moves_last
  · refine moves_skipWhitespace fun rest _ => moves_peek ?_
    split
    · exact moves_last
    · refine (hp.stmt rest (by omega)).bind fun s behind _ hlt => moves_next ?_
      have hshort : behind.length < rest.length := hlt
      omega

theorem moves_parseBlock (hk : source.length < k) : Moves (parseBlock p) source Anyhow :=
  (blockTurn_getsOn hp).whileLoop hk

theorem moves_parseFunctionBody (hk : source.length ≤ k) :
    Moves (parseFunctionBody p) source (Shorter source) := by
  refine moves_expect fun rest _ => ?_
  refine (moves_parseBlock hp (by omega)).bind fun body _ _ _ => ?_
  exact moves_expect fun _ _ => moves_shorter (by omega)

theorem moves_parseBody (hk : source.length ≤ k) :
    Moves (parseBody p) source (Shorter source) := by
  refine moves_expect fun rest _ => ?_
  refine (moves_parseBlock hp (by omega)).testNull.bind fun body _ _ _ => ?_
  refine moves_expect fun _ _ => ?_
  split
  · exact moves_record (moves_shorter (by omega))
  · exact moves_shorter (by omega)

/-! ### Modules -/

omit hp in
theorem moves_parseAlias : Moves parseAlias source Anyhow := by
  refine moves_looksAt fun found hfound => ?_
  split
  · next h =>
    exact moves_advance (hfound h) fun _ _ => moves_skipWhitespace fun _ _ =>
      moves_identifier fun _ _ _ => moves_anyhow
  · exact moves_anyhow

omit hp in
theorem symbolTurn_getsOn : GetsOn symbolTurn k := by
  intro symbols source _
  refine moves_peek ?_
  split
  · exact moves_last
  · exact moves_last
  · refine moves_skipWhitespace fun rest _ => moves_peek ?_
    split
    · exact moves_last
    · refine moves_identifier fun name _ _ => moves_skipWhitespace fun _ _ => ?_
      refine moves_parseAlias.bind fun symbolAlias _ _ _ => ?_
      refine moves_skipWhitespace fun _ _ => moves_peek ?_
      split
      · next h =>
        exact moves_advance (length_pos_of_beq h) fun _ _ => moves_skipWhitespace fun _ _ =>
          moves_next (by omega)
      · exact moves_next (by omega)

omit hp in
theorem moves_parseSymbols : Moves parseSymbols source (Shorter source) := by
  refine moves_expect fun _ _ => moves_skipWhitespace fun rest _ => ?_
  refine (symbolTurn_getsOn (k := rest.length + 1)).whileLoop (Nat.lt_succ_self _) |>.bind ?_
  exact fun symbols _ _ _ => moves_expect fun _ _ => moves_shorter (by omega)

omit hp in
theorem moves_parseSelection (isSelective : Bool) :
    Moves (parseSelection isSelective) source Anyhow := by
  unfold parseSelection
  split
  · refine moves_parseSymbols.bind fun symbols _ _ _ => moves_skipWhitespace fun _ _ => ?_
    refine moves_looksAt fun found hfound => ?_
    split
    · next h =>
      exact moves_advance (hfound h) fun _ _ => moves_skipWhitespace fun _ _ => moves_anyhow
    · exact moves_null
  · exact moves_anyhow

omit hp in
theorem moves_parseModuleAlias (isSelective : Bool) :
    Moves (parseModuleAlias isSelective) source Anyhow := by
  unfold parseModuleAlias
  split
  · exact moves_anyhow
  · exact moves_parseAlias

omit hp in
theorem moves_parseImport (h : 7 ≤ source.length) :
    Moves parseImport source (Shorter source) := by
  refine moves_advance h fun _ _ => moves_skipWhitespace fun _ _ => moves_peek ?_
  refine (moves_parseSelection _).bind fun symbols _ _ _ => moves_expect fun _ _ => ?_
  refine moves_takeChars fun _ _ => moves_expect fun _ _ => moves_skipWhitespace fun _ _ => ?_
  exact (moves_parseModuleAlias _).bind fun moduleAlias _ _ _ => moves_shorter (by omega)

omit hp in
theorem moves_parseExport (h : 7 ≤ source.length) :
    Moves parseExport source (Shorter source) := by
  refine moves_advance h fun _ _ => moves_skipWhitespace fun _ _ => ?_
  refine moves_looksAt fun found hfound => ?_
  split
  · next h =>
    exact moves_advance (hfound h) fun _ _ => moves_skipWhitespace fun _ _ =>
      moves_identifier fun _ _ _ => moves_shorter (by omega)
  · exact moves_parseSymbols.bind fun _ _ _ _ => moves_shorter (by omega)

/-! ### Functions -/

theorem moves_parseDefault (hk : source.length ≤ k) : Moves (parseDefault p) source Anyhow := by
  refine moves_skipWhitespace fun rest _ => moves_peek ?_
  split
  · next h =>
    refine moves_advance (length_pos_of_beq h) fun _ _ => moves_skipWhitespace fun _ _ => ?_
    exact (moves_parseExpressionStr hp (by omega)).anyhow
  · exact moves_anyhow

theorem moves_parseTypedName (hk : source.length ≤ k) :
    Moves (parseTypedName p) source (Shorter source) := by
  refine moves_identifier fun name _ _ => moves_skipWhitespace fun _ _ =>
    moves_expect fun rest _ => ?_
  exact (hp.typeDescriptor rest (by omega)).bind fun type _ _ _ => moves_shorter (by omega)

theorem paramTurn_getsOn : GetsOn (paramTurn p) k := by
  intro params source hk
  refine moves_peek ?_
  split
  · exact moves_last
  · refine moves_skipWhitespace fun rest _ => ?_
    refine (moves_parseTypedName hp (by omega)).bind fun param behind _ hlt => ?_
    have hshort : behind.length < rest.length := hlt
    refine (moves_parseDefault hp (by omega)).bind fun default _ _ _ => ?_
    refine moves_skipWhitespace fun _ _ => moves_peek ?_
    split
    · next h => exact moves_advance (length_pos_of_beq h) fun _ _ => moves_next (by omega)
    · exact moves_last

theorem moves_parseParams (hk : source.length ≤ k) :
    Moves (parseParams p) source (Shorter source) := by
  refine moves_expect fun _ _ => moves_skipWhitespace fun rest _ => ?_
  have hlist : Moves (parseParamList p) rest Anyhow := by
    refine moves_peek ?_
    split
    · exact moves_anyhow
    · exact (paramTurn_getsOn hp).whileLoop (by omega)
  refine hlist.bind fun params _ _ _ => ?_
  exact moves_skipWhitespace fun _ _ => moves_expect fun _ _ => moves_shorter (by omega)

theorem moves_parseReturnType (hk : source.length ≤ k) :
    Moves (parseReturnType p) source Anyhow := by
  refine moves_skipWhitespace fun _ _ => moves_looksAt fun found hfound => ?_
  split
  · next h =>
    refine moves_advance (hfound h) fun rest hrest => ?_
    exact (hp.typeDescriptor rest (by omega)).anyhow
  · exact moves_anyhow

theorem moves_parseFuncDecl (hk : source.length ≤ k) (h : 4 ≤ source.length) :
    Moves (parseFuncDecl p) source (Shorter source) := by
  refine moves_advance h fun _ _ => moves_skipWhitespace fun _ _ =>
    moves_identifier fun name _ _ => moves_skipWhitespace fun _ _ => ?_
  refine (moves_parseParams hp (by omega)).bind fun params _ _ _ => ?_
  refine (moves_parseReturnType hp (by omega)).bind fun returnType _ _ _ => ?_
  refine moves_looksAt fun found _ => ?_
  split
  · exact moves_null
  · refine moves_skipWhitespace fun _ _ => ?_
    exact (moves_parseFunctionBody hp (by omega)).bind fun body _ _ _ => moves_shorter (by omega)

/-! ### Structs and classes -/

theorem structFieldTurn_getsOn : GetsOn (structFieldTurn p) k := by
  intro fields source hk
  refine moves_peek ?_
  split
  · exact moves_last
  · exact moves_last
  · refine moves_skipWhitespace fun rest _ => moves_peek ?_
    split
    · exact moves_last
    · refine (moves_parseTypedName hp (by omega)).bind fun field behind _ hlt => ?_
      have hshort : behind.length < rest.length := hlt
      exact moves_skipWhitespace fun _ _ => moves_next (by omega)

theorem moves_parseStructDecl (hk : source.length ≤ k) (h : 7 ≤ source.length) :
    Moves (parseStructDecl p) source (Shorter source) := by
  refine moves_advance h fun _ _ => moves_skipWhitespace fun _ _ =>
    moves_identifier fun name _ _ => moves_skipWhitespace fun _ _ =>
      moves_expect fun _ _ => moves_skipWhitespace fun _ _ => ?_
  refine ((structFieldTurn_getsOn hp).whileLoop (by omega)).bind fun fields _ _ _ => ?_
  exact moves_expect fun _ _ => moves_shorter (by omega)

theorem moves_parseConstructor (hk : source.length ≤ k) (h : 4 ≤ source.length) :
    Moves (parseConstructor p) source (Shorter source) := by
  refine moves_advance h fun _ _ => moves_skipWhitespace fun _ _ => ?_
  refine (moves_parseParams hp (by omega)).bind fun params _ _ _ => ?_
  refine moves_skipWhitespace fun _ _ => ?_
  exact (moves_parseFunctionBody hp (by omega)).bind fun body _ _ _ => moves_shorter (by omega)

theorem moves_parseMethod (hk : source.length ≤ k) (h : 4 ≤ source.length) :
    Moves (parseMethod p) source (Shorter source) := by
  refine moves_advance h fun _ _ => moves_skipWhitespace fun _ _ =>
    moves_identifier fun name _ _ => moves_skipWhitespace fun _ _ => ?_
  refine (moves_parseParams hp (by omega)).bind fun params _ _ _ => ?_
  refine (moves_parseReturnType hp (by omega)).bind fun returnType _ _ _ => ?_
  refine moves_skipWhitespace fun _ _ => ?_
  exact (moves_parseFunctionBody hp (by omega)).bind fun body _ _ _ => moves_shorter (by omega)

omit hp in
theorem moves_addMethod (members : ClassMembers) (method : FuncDecl) :
    Moves (addMethod members method) source Anyhow := by
  unfold addMethod
  split
  · split
    · exact moves_null
    · exact moves_anyhow
  · exact moves_anyhow

theorem moves_parseClassMember (hk : source.length ≤ k) (members : ClassMembers) :
    Moves (parseClassMember p members) source (Shorter source) := by
  refine moves_looksAt fun found hfound => ?_
  split
  · next h =>
    have hlength : 5 ≤ source.length := hfound h
    refine (moves_parseConstructor hp hk (by omega)).bind fun _ rest _ hlt => ?_
    exact moves_shorter hlt
  · refine moves_looksAt fun found hfound => ?_
    split
    · next h =>
      refine (moves_parseMethod hp hk (hfound h)).bind fun method rest _ hlt => ?_
      exact (moves_addMethod members method).shorter_of_lt hlt
    · exact (moves_parseTypedName hp hk).bind fun field rest _ hlt => moves_shorter hlt

theorem classTurn_getsOn : GetsOn (classTurn p) k := by
  intro members source hk
  refine moves_peek ?_
  split
  · exact moves_last
  · exact moves_last
  · refine moves_skipWhitespace fun rest _ => moves_peek ?_
    split
    · exact moves_last
    · refine (moves_parseClassMember hp (by omega) members).bind fun members behind _ hlt => ?_
      have hshort : behind.length < rest.length := hlt
      exact moves_skipWhitespace fun _ _ => moves_next (by omega)

omit hp in
theorem moves_parseParentName : Moves parseParentName source Anyhow := by
  refine moves_looksAt fun found hfound => ?_
  split
  · next h =>
    exact moves_advance (hfound h) fun _ _ => moves_skipWhitespace fun _ _ =>
      moves_identifier fun _ _ _ => moves_skipWhitespace fun _ _ => moves_anyhow
  · exact moves_anyhow

theorem moves_parseClassDecl (hk : source.length ≤ k) (h : 6 ≤ source.length) :
    Moves (parseClassDecl p) source (Shorter source) := by
  refine moves_advance h fun _ _ => moves_skipWhitespace fun _ _ =>
    moves_identifier fun name _ _ => moves_skipWhitespace fun _ _ => ?_
  refine moves_parseParentName.bind fun parentName _ _ _ => ?_
  refine moves_expect fun _ _ => moves_skipWhitespace fun _ _ => ?_
  refine ((classTurn_getsOn hp).whileLoop (by omega)).bind fun members _ _ _ => ?_
  refine moves_expect fun _ _ => ?_
  split
  · exact moves_null
  · exact moves_shorter (by omega)

/-! ### Simple statements -/

omit hp in
theorem moves_skipStatementEnd : Moves skipStatementEnd source Anyhow := by
  refine moves_takeChars fun _ _ => moves_peek ?_
  split
  · next h => exact (moves_advance_shorter (length_pos_of_head? h) Nat.one_pos).anyhow
  · next h => exact (moves_advance_shorter (length_pos_of_head? h) Nat.one_pos).anyhow
  · exact moves_anyhow

theorem moves_parseReturn (hk : source.length ≤ k) (h : 6 ≤ source.length) :
    Moves (parseReturn p) source (Shorter source) := by
  refine moves_advance h fun _ _ => moves_skipWhitespace fun _ _ => ?_
  refine (moves_parseExpressionStr hp (by omega)).bind fun e _ _ _ => moves_text ?_
  split
  · exact moves_skipStatementEnd.bind fun _ _ _ _ => moves_shorter (by omega)
  · exact moves_shorter (by omega)

theorem moves_parseDeclaredType (hk : source.length ≤ k) :
    Moves (parseDeclaredType p) source Anyhow := by
  refine moves_peek ?_
  split
  · next h =>
    refine moves_advance (length_pos_of_beq h) fun rest _ => ?_
    exact (hp.typeDescriptor rest (by omega)).bind fun type _ _ _ => moves_anyhow
  · exact moves_anyhow

theorem moves_parseVarDecl (isConst : Bool) (hk : source.length ≤ k)
    (h : (if isConst then 6 else 4) ≤ source.length) :
    Moves (parseVarDecl p isConst) source (Shorter source) := by
  refine moves_advance h fun _ _ => moves_skipWhitespace fun _ _ =>
    moves_identifier fun name _ _ => moves_skipWhitespace fun _ _ => ?_
  refine (moves_parseDeclaredType hp (by omega)).bind fun typeDesc _ _ _ => ?_
  refine moves_skipWhitespace fun _ _ => moves_expect fun _ _ => moves_skipWhitespace fun _ _ => ?_
  exact (moves_parseExpressionStr hp (by omega)).bind fun init _ _ _ => moves_shorter (by omega)

theorem moves_parsePrint (hk : source.length ≤ k) (h : 6 ≤ source.length) :
    Moves (parsePrint p) source (Shorter source) := by
  have hend : ∀ (e : Option ASTExpr) (rest : List Char), rest.length < source.length →
      Moves (do
        if endsStatement (← text) then
          skipStatementEnd
          return ASTStmt.print (e.getD .null)
        else
          null) rest (Shorter source) := by
    intro e rest hlt
    refine moves_text ?_
    split
    · exact moves_skipStatementEnd.bind fun _ _ _ _ => moves_shorter (by omega)
    · exact moves_null
  refine moves_advance h fun rest _ => ?_
  refine (moves_parseExpressionStr hp (by omega)).testNull.bind fun e _ _ _ => moves_peek ?_
  split
  · next hparen =>
    exact moves_advance (length_pos_of_beq hparen) fun _ _ => hend e _ (by omega)
  · exact hend e _ (by omega)

/-! ### Conditionals and loops -/

theorem moves_parseElse (hk : source.length ≤ k) : Moves (parseElse p) source Anyhow := by
  refine moves_skipWhitespace fun _ _ => moves_looksAt fun found hfound => ?_
  split
  · next h =>
    refine moves_advance (hfound h) fun _ _ => moves_skipWhitespace fun rest _ => ?_
    refine moves_looksAt fun found _ => ?_
    split
    · exact (hp.stmt rest (by omega)).bind fun s _ _ _ => moves_anyhow
    · exact (moves_parseBody hp (by omega)).anyhow
  · exact moves_anyhow

theorem moves_parseIf (hk : source.length ≤ k) (h : 3 ≤ source.length) :
    Moves (parseIf p) source (Shorter source) := by
  refine moves_advance h fun _ _ => moves_skipWhitespace fun _ _ => ?_
  refine (moves_parseExpressionStr hp (by omega)).bind fun condition _ _ _ => ?_
  refine moves_skipWhitespace fun _ _ => ?_
  refine (moves_parseBody hp (by omega)).bind fun thenBranch _ _ _ => ?_
  exact (moves_parseElse hp (by omega)).bind fun elseBranch _ _ _ => moves_shorter (by omega)

theorem moves_parseWhile (hk : source.length ≤ k) (h : 6 ≤ source.length) :
    Moves (parseWhile p) source (Shorter source) := by
  refine moves_advance h fun _ _ => moves_skipWhitespace fun _ _ => ?_
  refine (moves_parseExpressionStr hp (by omega)).bind fun condition _ _ _ => ?_
  refine moves_skipWhitespace fun _ _ => ?_
  exact (moves_parseBody hp (by omega)).bind fun body _ _ _ => moves_shorter (by omega)

theorem moves_parseFor (hk : source.length ≤ k) (h : 4 ≤ source.length) :
    Moves (parseFor p) source (Shorter source) := by
  refine moves_advance h fun _ _ => moves_skipWhitespace fun _ _ => moves_takeChars fun _ _ => ?_
  split
  · exact moves_null
  · refine moves_skipWhitespace fun _ _ => moves_looksAt fun found hfound => ?_
    split
    · next hin =>
      refine moves_advance (hfound hin) fun _ _ => moves_skipWhitespace fun _ _ => ?_
      refine (moves_parseExpressionStr hp (by omega)).bind fun iterable _ _ _ => ?_
      refine moves_skipWhitespace fun _ _ => ?_
      exact (moves_parseBody hp (by omega)).bind fun body _ _ _ => moves_shorter (by omega)
    · exact moves_null

/-! ### Assignments -/

/-- The left side is parsed on its own, and the pointer stays where it is. -/
theorem moves_parseAssignTarget {name : Ident} (hk : name.length ≤ k) :
    Moves (parseAssignTarget p name) source fun _ rest => rest = source := by
  have hside : Moves (testNull (onText name (parseExpressionStr p))) source
      fun _ rest => rest = source := (moves_parseExpressionStr hp hk).testNull_onText
  unfold parseAssignTarget
  split
  · refine hside.bind fun o rest _ hrest => ?_
    split <;> exact moves_pure hrest
  · split
    · refine hside.bind fun o rest _ hrest => ?_
      split <;> exact moves_pure hrest
    · exact moves_pure rfl

theorem moves_parseAssign {c : Char} {before rest : List Char} {op : Option Char}
    (hk : source.length ≤ k) (hsource : source = before ++ c :: rest)
    (hop : op.isSome → rest.head? = some '=') :
    Moves (parseAssign p before op) source (Shorter source) := by
  have hlength : source.length = before.length + (rest.length + 1) := by
    rw [hsource, List.length_append, List.length_cons]
  have hname : (trimSpace before).length ≤ k := (length_trimSpace_le before).trans (by omega)
  refine moves_advance (by omega) fun behind hbehind => ?_
  refine (moves_parseAssignTarget hp hname).bind fun target left _ hleft => ?_
  subst hleft
  have hoperator : (if op.isSome = true then 2 else 1) ≤ left.length := by
    split
    · next h =>
      have hpos := length_pos_of_head? (hop h)
      omega
    · omega
  have hpos : 0 < if op.isSome = true then 2 else 1 := by split <;> decide
  refine moves_advance hoperator fun _ _ => moves_skipWhitespace fun _ _ => ?_
  exact (moves_parseExpressionStr hp (by omega)).bind fun value _ _ _ => moves_shorter (by omega)

theorem moves_parseAssignOrExpr (hk : source.length ≤ k) :
    Moves (parseAssignOrExpr p) source (Shorter source) := by
  refine moves_text ?_
  split
  · next before op h =>
    obtain ⟨c, rest, hsource, hop⟩ := exists_of_scanAssign h
    exact moves_parseAssign hp hk hsource hop
  · exact (moves_parseExpressionStr hp hk).bind fun e rest _ hlt => moves_shorter hlt

/-! ### Statements -/

/-- **Every statement reads some of the text.** -/
theorem moves_parseStmt (hk : source.length ≤ k) :
    Moves (parseStmt p) source (Shorter source) := by
  refine moves_skipWhitespace fun rest hrest => ?_
  have hk' : rest.length ≤ k := hrest.trans hk
  refine moves_choose (fun h => (moves_parseImport h).shorter_of_le hrest) ?_
  refine moves_choose (fun h => (moves_parseExport h).shorter_of_le hrest) ?_
  refine moves_choose (fun h => (moves_parseFuncDecl hp hk' h).bind fun decl _ _ hlt =>
    moves_shorter (lt_of_lt_of_le hlt hrest)) ?_
  refine moves_chooseWord (fun h => (moves_parseReturn hp hk' h).shorter_of_le hrest) ?_
  refine moves_choose (fun h => (moves_parseStructDecl hp hk' h).shorter_of_le hrest) ?_
  refine moves_choose (fun h => (moves_parseClassDecl hp hk' h).shorter_of_le hrest) ?_
  refine moves_choose (fun h => (moves_parseVarDecl hp false hk' h).shorter_of_le hrest) ?_
  refine moves_choose (fun h => (moves_parseVarDecl hp false hk' h).shorter_of_le hrest) ?_
  refine moves_choose (fun h => (moves_parseVarDecl hp true hk' h).shorter_of_le hrest) ?_
  refine moves_choose (fun h => (moves_parsePrint hp hk' h).shorter_of_le hrest) ?_
  refine moves_choose (fun h => (moves_parseIf hp hk' h).shorter_of_le hrest) ?_
  refine moves_choose (fun h => (moves_parseWhile hp hk' h).shorter_of_le hrest) ?_
  refine moves_choose (fun h => (moves_parseFor hp hk' h).shorter_of_le hrest) ?_
  refine moves_chooseWord (fun h => moves_advance h fun last hlast => moves_shorter ?_) ?_
  · have hlength : last.length + 5 = rest.length := hlast
    omega
  refine moves_chooseWord (fun h => moves_advance h fun last hlast => moves_shorter ?_) ?_
  · have hlength : last.length + 8 = rest.length := hlast
    omega
  exact (moves_parseAssignOrExpr hp hk').shorter_of_le hrest

omit hp in
theorem moves_recordFailure {m : Parse ASTStmt} (h : Moves m source (Shorter source)) :
    Moves (recordFailure m) source (Shorter source) := by
  refine h.testNull.bind fun o rest _ hpost => ?_
  cases o with
  | some s => exact moves_shorter (hpost s rfl)
  | none => exact moves_record moves_null

/-! ### Programs -/

theorem moves_parseTopLevel (hk : source.length < k) (list : ASTStmtList) :
    Moves (parseTopLevel p list) source (Shorter source) := by
  refine (hp.stmt source hk).testNull.bind fun o rest _ hpost => ?_
  cases o with
  | none =>
    refine moves_get fun s => ?_
    split
    · exact moves_setError moves_null
    · exact moves_null
  | some stmt =>
    have hlt : rest.length < source.length := hpost stmt rfl
    have hend : ∀ left : List Char, left.length < source.length →
        Moves (do
          if (← get).compilationFailed then null else return list ++ [stmt]) left
          (Shorter source) := by
      intro left hleft
      refine moves_get fun s => ?_
      split
      · exact moves_null
      · exact moves_shorter hleft
    refine moves_skipWhitespace fun behind _ => moves_peek ?_
    split
    · next h => exact moves_advance (length_pos_of_beq h) fun _ _ => hend _ (by omega)
    · exact hend _ (by omega)

theorem programTurn_getsOn : GetsOn (programTurn p) k := by
  intro list source hk
  refine moves_skipWhitespace fun rest _ => moves_peek ?_
  split
  · exact moves_last
  · next h => exact moves_advance (length_pos_of_head? h) fun _ _ => moves_next (by omega)
  · refine (moves_parseTopLevel hp (by omega) list).bind fun list behind _ hlt => moves_next ?_
    have hshort : behind.length < rest.length := hlt
    omega

theorem moves_astParseProgram (hk : source.length < k) :
    Moves (astParseProgram p) source Anyhow :=
  (programTurn_getsOn hp).whileLoop hk

end Statements

/-! ### The parser as a whole -/

/-- **The calls of the parser end** on texts that are shorter than the stack is deep. -/
theorem movesBelow_calls (conversions : Conversions) : ∀ n, (parser conversions n).MovesBelow n
  | 0 =>
    ⟨fun _ h => absurd h (Nat.not_lt_zero _), fun _ h => absurd h (Nat.not_lt_zero _),
      fun _ h => absurd h (Nat.not_lt_zero _), fun _ h => absurd h (Nat.not_lt_zero _)⟩
  | n + 1 =>
    have ih := movesBelow_calls conversions n
    ⟨fun _ h => moves_parseTypeDescriptor ih (Nat.le_of_lt_succ h),
      fun _ h => moves_parseLogicalOr ih (Nat.le_of_lt_succ h),
      fun _ h => moves_parseUnary ih (Nat.le_of_lt_succ h),
      fun _ h => moves_recordFailure (moves_parseStmt ih (Nat.le_of_lt_succ h))⟩

/-- **Every loop of the parser gets on**, on texts of fewer characters. -/
structure LoopsGetOn (p : Parser) (k : ℕ) : Prop where
  block : GetsOn (blockTurn p) k
  params : GetsOn (paramTurn p) k
  structFields : GetsOn (structFieldTurn p) k
  classMembers : GetsOn (classTurn p) k
  symbols : GetsOn symbolTurn k
  string : GetsOn (stringTurn p) k
  arguments : GetsOn (argumentTurn p) k
  brackets : GetsOn (bracketTurn p) k
  literalFields : GetsOn (fieldTurn p) k
  suffixes : GetsOn (postfixTurn p) k
  factor : GetsOn (operatorTurn factorOperator (parseUnary p)) k
  term : GetsOn (operatorTurn termOperator (parseFactor p)) k
  logicalAnd : GetsOn (operatorTurn andOperator (parseComparison p)) k
  logicalOr : GetsOn (operatorTurn orOperator (parseLogicalAnd p)) k
  program : GetsOn (programTurn p) k

theorem GetsOn.mono {α β : Type} {turn : α → Parse (α ⊕ β)} {j k : ℕ} (h : GetsOn turn k)
    (hjk : j ≤ k) : GetsOn turn j :=
  fun a source hj => h a source (lt_of_lt_of_le hj hjk)

theorem loopsGetOn {p : Parser} {k : ℕ} (hp : p.MovesBelow k) : LoopsGetOn p k where
  block := blockTurn_getsOn hp
  params := paramTurn_getsOn hp
  structFields := structFieldTurn_getsOn hp
  classMembers := classTurn_getsOn hp
  symbols := symbolTurn_getsOn
  string := stringTurn_getsOn hp
  arguments := argumentTurn_getsOn hp
  brackets := bracketTurn_getsOn hp
  literalFields := fieldTurn_getsOn hp
  suffixes := (postfixTurn_getsOn hp).mono (Nat.le_succ k)
  factor := (operatorTurn_getsOn inText_factorOperator fun _ => moves_parseUnary hp).mono
    (Nat.le_succ k)
  term := (operatorTurn_getsOn inText_termOperator fun _ => moves_parseFactor hp).mono
    (Nat.le_succ k)
  logicalAnd := (operatorTurn_getsOn inText_andOperator fun _ => moves_parseComparison hp).mono
    (Nat.le_succ k)
  logicalOr := (operatorTurn_getsOn inText_orOperator fun _ => moves_parseLogicalAnd hp).mono
    (Nat.le_succ k)
  program := programTurn_getsOn hp

/-- **The parser ends within its text**, with a stack that is as deep as the text is long.
Every statement that is parsed in it, from any place and after anything else, moves the pointer
forward and not behind the end; every loop gets on; and the program is parsed or refused. -/
theorem parser_ends (conversions : Conversions) (source : List Char) (error : Option BreadError)
    (n : ℕ) (h : source.length < n) :
    (∀ text : List Char, text <:+ source →
      Moves (parseStmt (parser conversions n)) text (Shorter text)) ∧
    LoopsGetOn (parser conversions n) n ∧
    (astParseProgram (parser conversions n)).result (.init source error) ≠ .error .diverges ∧
    ((astParseProgram (parser conversions n)).final (.init source error)).pastEnd = false := by
  have hcalls := movesBelow_calls conversions n
  obtain ⟨hends, -, hbound, -⟩ := moves_astParseProgram hcalls h (.init source error) rfl
  exact ⟨fun text htext => moves_parseStmt hcalls (htext.length_le.trans h.le), loopsGetOn hcalls,
    hends, hbound⟩

/-- The parser ends on a text whose string is not closed. -/
theorem openString_ends :
    (astParseProgram (parser ⟨fun _ => 0, fun _ => ⟨0⟩⟩ 3)).result (.init "\"a".toList none) ≠
      .error .diverges :=
  (parser_ends ⟨fun _ => 0, fun _ => ⟨0⟩⟩ "\"a".toList none 3 (by decide)).2.2.1

end BreadLang
