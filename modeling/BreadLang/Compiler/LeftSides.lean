import BreadLang.Compiler.RoundTrip
import BreadLang.Compiler.StmtKinds

/-!
# The left sides of assignments

`parse_stmt` takes the text before an assignment operator and guesses from its characters what
it is: an index where there is a `[`, else a member where there is a `.`, else a variable.  A
text that is then parsed to something else falls through to an assignment to a variable whose
name is the whole text.
-/

namespace BreadLang

open Stateful Parse

/-! ### Assignments and their left sides -/

/-- The text on the left of the operator, where the statement is an assignment. -/
def leftSide (s : ParseState) : Option (List Char) :=
  (scanAssign .start (skipSpaceAndComments false s.rest)).map fun scan => trimSpace scan.1

/-- The left side is an expression. -/
def SideExpr (p : Parser) (s : ParseState) (side : List Char) (e : ASTExpr) : Prop :=
  (parseExpressionStr p).result { s with rest := side } = .ok e

/-- **The target of an assignment is kept**: it assigns to the index or member that its left
side is, and to a variable only under a name. -/
structure TargetKept (p : Parser) (s : ParseState) (side : List Char) (stmt : ASTStmt) : Prop where
  name : ∀ name value op, stmt = .varAssign name value op → IsIdentifier name
  index : ∀ target index, SideExpr p s side (.index target index) →
    ∃ value op, stmt = .indexAssign target index value op
  member : ∀ target member chain, SideExpr p s side (.member target member chain) →
    ∃ value op, stmt = .memberAssign target member value op

/-- **A left side that is kept**: a text with a `[` that is an index, one with a `.` and no `[`
that is a member, or a name. -/
inductive GoodSide (p : Parser) (s : ParseState) (side : List Char) : Prop
  | index {target index : ASTExpr} (hbracket : '[' ∈ side)
      (hside : SideExpr p s side (.index target index)) (htarget : target.isNull = false)
      (hindex : index.isNull = false)
  | member {target : ASTExpr} {member : Ident} {chain : Bool} (hbracket : '[' ∉ side)
      (hdot : '.' ∈ side) (hside : SideExpr p s side (.member target member chain))
      (htarget : target.isNull = false)
  | name (hname : IsIdentifier side)

/-! ### How the target is guessed -/

section Guess

variable {p : Parser} {s : ParseState} {side text : List Char} {target : ASTExpr}

/-- The left side, if it is an expression. -/
theorem sideExpr_of_testNull {o : Option ASTExpr}
    (h : (testNull (onText side (parseExpressionStr p))).result { s with rest := text } = .ok o)
    (e : ASTExpr) : SideExpr p s side e ↔ o = some e := by
  rw [testNull, result_attempt, onText, result_within] at h
  rw [SideExpr]
  cases hr : (parseExpressionStr p).result { s with rest := side } with
  | ok a =>
      rw [hr] at h
      obtain rfl := Except.ok.inj h
      rw [Except.ok.injEq, Option.some.injEq]
  | error r =>
      rw [hr] at h
      cases r with
      | null =>
          obtain rfl := Except.ok.inj h
          exact ⟨fun h => (by cases h), fun h => (by cases h)⟩
      | diverges => cases h

/-- A text with a bracket is an index, or nothing. -/
theorem target_of_bracket (hbracket : '[' ∈ side)
    (h : (parseAssignTarget p side).result { s with rest := text } = .ok target) :
    (∃ t i, SideExpr p s side (.index t i) ∧ target = .index t i) ∨
      target = .null ∧ ∀ t i, ¬SideExpr p s side (.index t i) := by
  rw [parseAssignTarget, if_pos hbracket] at h
  obtain ⟨o, ho, h⟩ := result_bind_eq_ok.mp h
  have hside := sideExpr_of_testNull ho
  split at h
  · obtain rfl := Except.ok.inj h
    exact .inl ⟨_, _, (hside _).mpr rfl, rfl⟩
  · rename_i hindex
    obtain rfl := Except.ok.inj h
    exact .inr ⟨rfl, fun t i hti => hindex t i ((hside _).mp hti)⟩

/-- A text with a dot and no bracket is a member, or nothing. -/
theorem target_of_dot (hbracket : '[' ∉ side) (hdot : '.' ∈ side)
    (h : (parseAssignTarget p side).result { s with rest := text } = .ok target) :
    (∃ t m chain, SideExpr p s side (.member t m chain) ∧ target = .member t m chain) ∨
      target = .null ∧ ∀ t m chain, ¬SideExpr p s side (.member t m chain) := by
  rw [parseAssignTarget, if_neg hbracket, if_pos hdot] at h
  obtain ⟨o, ho, h⟩ := result_bind_eq_ok.mp h
  have hside := sideExpr_of_testNull ho
  split at h
  · obtain rfl := Except.ok.inj h
    exact .inl ⟨_, _, _, (hside _).mpr rfl, rfl⟩
  · rename_i hmember
    obtain rfl := Except.ok.inj h
    exact .inr ⟨rfl, fun t m chain ht => hmember t m chain ((hside _).mp ht)⟩

theorem target_of_plain (hbracket : '[' ∉ side) (hdot : '.' ∉ side)
    (h : (parseAssignTarget p side).result { s with rest := text } = .ok target) :
    target = .null := by
  rw [parseAssignTarget, if_neg hbracket, if_neg hdot] at h
  exact (Except.ok.inj h).symm

/-- An assignment, by its left side. -/
theorem exists_target {stmt : ASTStmt} {t : ParseState} (h : EndsIn (parseStmt p) s stmt t)
    (hstmt : stmt.IsAssignment) (hside : leftSide s = some side) :
    ∃ target value op text,
      (parseAssignTarget p side).result { s with rest := text } = .ok target ∧
        stmt = assignTo side op value target := by
  have hlast := (endsIn_parseStmt hstmt.isUnmarked h).1
  obtain ⟨⟨before, op⟩, hscan, rfl⟩ := Option.map_eq_some_iff.mp hside
  obtain ⟨source, hsource, hlast⟩ := result_bind_eq_ok.mp hlast
  obtain rfl := Except.ok.inj hsource
  rw [hscan] at hlast
  obtain ⟨_, -, hlast⟩ := result_bind_eq_ok.mp hlast
  obtain ⟨target, htarget, hlast⟩ := result_bind_eq_ok.mp hlast
  obtain ⟨c, rest, hbefore, -⟩ := exists_of_scanAssign hscan
  rw [final_advance (show before.length ≤ (skipSpaceAndComments false s.rest).length by
    rw [hbefore]; simp)] at htarget
  obtain ⟨_, -, hlast⟩ := result_bind_eq_ok.mp hlast
  obtain ⟨_, -, hlast⟩ := result_bind_eq_ok.mp hlast
  obtain ⟨value, -, hlast⟩ := result_bind_eq_ok.mp hlast
  exact ⟨target, value, op, _, htarget, (Except.ok.inj hlast).symm⟩

end Guess

/-! ### Names on the left -/

section Names

variable {p : Parser} {side : List Char}

/-- A name is a literal, `self`, `super` or a variable. -/
theorem exists_reads_word (p : Parser) (hname : IsIdentifier side) :
    ∃ e, Reads (parsePrimary p) side e [] ∧
      (e = .nil ∨ (∃ b, e = .bool b) ∨ e = .self ∨ e = .super ∨ e = .var side) := by
  by_cases hliteral : side ∈ literalWords
  · have hwords := hliteral
    simp only [literalWords, List.mem_cons, List.not_mem_nil, or_false] at hwords
    obtain rfl | rfl | rfl := hwords
    · exact ⟨_, reads_literalWord [] rfl (.inl ⟨rfl, rfl⟩), .inl rfl⟩
    · exact ⟨_, reads_literalWord [] rfl (.inr (.inl ⟨rfl, rfl⟩)), .inr (.inl ⟨_, rfl⟩)⟩
    · exact ⟨_, reads_literalWord [] rfl (.inr (.inr ⟨rfl, rfl⟩)), .inr (.inl ⟨_, rfl⟩)⟩
  · have hend : side ++ [] = side := List.append_nil side
    by_cases hself : side = "self".toList
    · have hread := reads_self_or_super (p := p) [] hname rfl hliteral
        (.inl ⟨hself, rfl⟩)
      exact ⟨_, hend ▸ hread, .inr (.inr (.inl rfl))⟩
    · by_cases hsuper : side = "super".toList
      · have hread := reads_self_or_super (p := p) [] hname rfl hliteral
          (.inr ⟨hsuper, rfl⟩)
        exact ⟨_, hend ▸ hread, .inr (.inr (.inr (.inl rfl)))⟩
      · have hread := reads_variable (p := p) [] hname rfl hliteral hself hsuper
          (reads_skipWhitespace []) fun c hc => by cases hc
        rw [hend] at hread
        exact ⟨_, hread, .inr (.inr (.inr (.inr rfl)))⟩

/-- A name is read as a whole expression, which is no index and no member. -/
theorem exists_sideExpr_name (p : Parser) (s : ParseState) (hname : IsIdentifier side) :
    ∃ e, SideExpr p s side e ∧ (∀ t i, e ≠ .index t i) ∧ ∀ t m chain, e ≠ .member t m chain := by
  obtain ⟨e, hread, he⟩ := exists_reads_word p hname
  obtain ⟨c, name, rfl⟩ : ∃ c name, side = c :: name :=
    List.exists_cons_of_ne_nil fun heq => by
      rw [heq] at hname
      exact Bool.false_ne_true hname.start
  have hc : isIdentStart c = true := hname.start
  have hnull : e.isNull = false := by
    obtain rfl | ⟨b, rfl⟩ | rfl | rfl | rfl := he <;> rfl
  have hunary : Reads (parseUnary p) (c :: name) e [] := by
    refine reads_unary_of_primary (startsToken_identStart hc) (fun d hd => ?_) hread
      (.last (reads_postfixTurn_last startsToken_nil endsPostfix_nil)) hnull
    obtain rfl := Option.some.inj hd
    exact ⟨identStart_ne hc rfl, identStart_ne hc rfl⟩
  have hwhole := reads_wholeExpression (reads_logicalOr_of_unary hunary (stops_nil 0))
  have hextent : extentLength .start (c :: name ++ []) = (c :: name).length :=
    extentLength_append hname.chars rfl []
  have htrim : trimSpace (c :: name) = c :: name :=
    trimSpace_eq_self fun d hd => isSpace_of_identChar (hname.chars d hd)
  have hside := reads_expressionStr (p := p) (e := e) hextent (by rwa [htrim])
  rw [List.append_nil] at hside
  refine ⟨e, (hside _ rfl).1, fun t i => ?_, fun t m chain => ?_⟩
  · obtain rfl | ⟨b, rfl⟩ | rfl | rfl | rfl := he <;> exact ASTExpr.noConfusion
  · obtain rfl | ⟨b, rfl⟩ | rfl | rfl | rfl := he <;> exact ASTExpr.noConfusion

end Names

/-! ### What is assigned to -/

section Kept

variable {p : Parser} {s : ParseState} {side : List Char} {value : ASTExpr} {op : Option Char}

theorem SideExpr.unique {e e' : ASTExpr} (h : SideExpr p s side e) (h' : SideExpr p s side e') :
    e = e' :=
  Except.ok.inj (h.symm.trans h')

/-- An assignment to a variable is kept where its name is one. -/
theorem targetKept_varAssign (hname : IsIdentifier side) :
    TargetKept p s side (.varAssign side value op) := by
  obtain ⟨e, he, hindex, hmember⟩ := exists_sideExpr_name p s hname
  refine ⟨fun name value op h => ?_, fun t i h => ?_, fun t m chain h => ?_⟩
  · cases h
    exact hname
  · exact absurd (he.unique h) (hindex t i)
  · exact absurd (he.unique h) (hmember t m chain)

theorem not_targetKept_varAssign (hname : ¬IsIdentifier side) :
    ¬TargetKept p s side (.varAssign side value op) :=
  fun h => hname (h.name _ _ _ rfl)

theorem targetKept_indexAssign {target index : ASTExpr}
    (hside : SideExpr p s side (.index target index)) :
    TargetKept p s side (.indexAssign target index value op) := by
  refine ⟨fun name value op h => (by cases h), fun t i h => ?_, fun t m chain h => ?_⟩
  · cases hside.unique h
    exact ⟨_, _, rfl⟩
  · cases hside.unique h

theorem targetKept_memberAssign {target : ASTExpr} {member : Ident} {chain : Bool}
    (hside : SideExpr p s side (.member target member chain)) :
    TargetKept p s side (.memberAssign target member value op) := by
  refine ⟨fun name value op h => (by cases h), fun t i h => ?_, fun t m chain h => ?_⟩
  · cases hside.unique h
  · cases hside.unique h
    exact ⟨_, _, rfl⟩

/-- A text with a bracket, by what it is as an expression. -/
theorem targetKept_iff_of_bracket {target : ASTExpr} (hbracket : '[' ∈ side)
    (htarget : (∃ t i, SideExpr p s side (.index t i) ∧ target = .index t i) ∨
      target = .null ∧ ∀ t i, ¬SideExpr p s side (.index t i)) :
    TargetKept p s side (assignTo side op value target) ↔
      ∃ t i, SideExpr p s side (.index t i) ∧ t.isNull = false ∧ i.isNull = false := by
  have hname : ¬IsIdentifier side := fun h => bracket_not_mem h hbracket
  obtain ⟨t, i, hside, rfl⟩ | ⟨rfl, hnone⟩ := htarget
  · by_cases hnull : (t.isNull || i.isNull) = true
    · have hvar : assignTo side op value (.index t i) = .varAssign side value op := if_pos hnull
      rw [hvar]
      refine iff_of_false (not_targetKept_varAssign hname) ?_
      rintro ⟨t', i', hside', ht, hi⟩
      cases hside.unique hside'
      rw [ht, hi] at hnull
      cases hnull
    · have hindex : assignTo side op value (.index t i) = .indexAssign t i value op := if_neg hnull
      rw [hindex]
      obtain ⟨ht, hi⟩ := Bool.or_eq_false_iff.mp (Bool.eq_false_iff.mpr hnull)
      exact iff_of_true (targetKept_indexAssign hside) ⟨t, i, hside, ht, hi⟩
  · refine iff_of_false (not_targetKept_varAssign hname) ?_
    rintro ⟨t, i, hside, -⟩
    exact hnone t i hside

/-- A text with a dot and no bracket. -/
theorem targetKept_iff_of_dot {target : ASTExpr} (hdot : '.' ∈ side)
    (htarget : (∃ t m chain, SideExpr p s side (.member t m chain) ∧ target = .member t m chain) ∨
      target = .null ∧ ∀ t m chain, ¬SideExpr p s side (.member t m chain)) :
    TargetKept p s side (assignTo side op value target) ↔
      ∃ t m chain, SideExpr p s side (.member t m chain) ∧ t.isNull = false := by
  have hname : ¬IsIdentifier side := fun h => dot_not_mem h hdot
  obtain ⟨t, m, chain, hside, rfl⟩ | ⟨rfl, hnone⟩ := htarget
  · by_cases hnull : t.isNull = true
    · have hvar : assignTo side op value (.member t m chain) = .varAssign side value op :=
        if_pos hnull
      rw [hvar]
      refine iff_of_false (not_targetKept_varAssign hname) ?_
      rintro ⟨t', m', chain', hside', ht⟩
      cases hside.unique hside'
      rw [ht] at hnull
      cases hnull
    · have hmember : assignTo side op value (.member t m chain) = .memberAssign t m value op :=
        if_neg hnull
      rw [hmember]
      exact iff_of_true (targetKept_memberAssign hside)
        ⟨t, m, chain, hside, Bool.eq_false_iff.mpr hnull⟩
  · refine iff_of_false (not_targetKept_varAssign hname) ?_
    rintro ⟨t, m, chain, hside, -⟩
    exact hnone t m chain hside

theorem targetKept_varAssign_iff :
    TargetKept p s side (.varAssign side value op) ↔ IsIdentifier side :=
  ⟨fun h => h.name _ _ _ rfl, targetKept_varAssign⟩

end Kept

section Inputs

variable (conversions : Conversions)

/-- The statement `x = 1`. -/
theorem endsIn_name :
    EndsIn (parseStmt (parser conversions 2)) (.init "x = 1".toList none)
      (.varAssign "x".toList (.int 1) none) (.init [] none) := by
  have hagree : AgreeOn "x = 1".toList (parseStmt (parser conversions 2)) _ :=
    parseStmt_agree (by decide) rfl (by decide)
  exact ⟨(hagree _ rfl).1.trans rfl, (hagree _ rfl).2.trans rfl⟩

/-- The text `v[i].f`. -/
theorem reads_indexMember (rest : List Char) (hextent : extentLength .start ("v[i].f".toList ++ rest) = 6) :
    Reads (parseExpressionStr (parser conversions 6)) ("v[i].f".toList ++ rest)
      (.member (.index (.var "v".toList) (.var "i".toList)) "f".toList false) rest := by
  have htarget : Rendered true 6 (.index (.var "v".toList) (.var "i".toList)) "v[i]".toList :=
    .plain (by decide) (.index isSpaces_nil isSpaces_nil isSpaces_nil
      (.plain (by decide) (.var ⟨rfl, by decide⟩ (by decide)))
      (.plain (by decide) (.var ⟨rfl, by decide⟩ (by decide))))
  have htext : Rendered true 0 (.member (.index (.var "v".toList) (.var "i".toList)) "f".toList
      false) "v[i].f".toList :=
    .plain (by decide) (.member isSpaces_nil isSpaces_nil (fun _ _ _ h => by cases h)
      ⟨rfl, by decide⟩ htarget)
  exact reads_expressionStr_rendered conversions htext (by decide) rfl hextent

/-- The statement `v[i].f = 1`. -/
theorem reads_indexMember_assignment :
    Reads (parseStmt (parser conversions 6)) "v[i].f = 1".toList
      (.varAssign "v[i].f".toList (.int 1) none) [] := by
  have hagree : AgreeOn "v[i].f = 1".toList (parseStmt (parser conversions 6)) _ :=
    parseStmt_agree (by decide) rfl (by decide)
  refine hagree.reads ((reads_text _).bind ((reads_advance 7 _ (by simp)).bind ?_))
  have hside := (reads_indexMember conversions [] rfl).onText "= 1".toList
  have htarget : Reads (parseAssignTarget (parser conversions 6) "v[i].f".toList) "= 1".toList .null
      "= 1".toList := by
    rw [parseAssignTarget, if_pos (by decide)]
    exact hside.testNull.bind (reads_pure _ _)
  have hone : Reads (parseExpressionStr (parser conversions 6)) ("1".toList ++ []) (.int 1) [] :=
    reads_expressionStr_rendered conversions (.plain (Nat.zero_le _)
      (body_digit rfl rfl (by decide))) (by decide) rfl rfl
  refine htarget.bind ((reads_advance 1 _ (by simp)).bind ?_)
  exact (reads_spaces isSpaces_blank (by rfl)).bind (hone.bind (reads_pure _ _))

end Inputs

end BreadLang
