import BreadLang.Compiler.ExprReading
import BreadLang.Library.Refinement

/-!
# Statements with and without a keyword

Every case of `parse_stmt` but the last starts with a keyword, and none of them returns an
assignment or an expression statement.  So a statement of these two kinds comes from the last
case.
-/

namespace BreadLang

open Stateful Parse

/-- Whether a statement is an assignment. -/
def ASTStmt.IsAssignment : ASTStmt → Prop
  | .varAssign .. | .indexAssign .. | .memberAssign .. => True
  | _ => False

/-- Whether a statement is one that no keyword starts. -/
def ASTStmt.IsUnmarked : ASTStmt → Prop
  | .varAssign .. | .indexAssign .. | .memberAssign .. | .expr _ => True
  | _ => False

theorem ASTStmt.IsAssignment.isUnmarked {stmt : ASTStmt} (h : stmt.IsAssignment) :
    stmt.IsUnmarked := by
  cases stmt with
  | varAssign | indexAssign | memberAssign => trivial
  | _ => exact absurd h id

section Statements

variable {p : Parser}

/-- A function of the parser that returns statements with a keyword. -/
def Marked (m : Parse ASTStmt) : Prop :=
  Returns m fun stmt => ¬stmt.IsUnmarked

theorem marked_parseImport : Marked parseImport := by
  refine returns_bind_any fun _ => returns_bind_any fun _ => returns_bind_any fun c => ?_
  refine returns_bind_any fun _ => returns_bind_any fun _ => returns_bind_any fun _ =>
    returns_bind_any fun _ => returns_bind_any fun _ => returns_bind_any fun _ => ?_
  exact returns_pure id

theorem marked_parseExport : Marked parseExport := by
  refine returns_bind_any fun _ => returns_bind_any fun _ => returns_bind_any fun b => ?_
  split
  · exact returns_bind_any fun _ => returns_bind_any fun _ => returns_bind_any fun _ =>
      returns_pure id
  · exact returns_bind_any fun _ => returns_pure id

theorem marked_parseReturn : Marked (parseReturn p) := by
  refine returns_bind_any fun _ => returns_bind_any fun _ => returns_bind_any fun e =>
    returns_bind_any fun source => ?_
  split
  · exact returns_bind_any fun _ => returns_pure id
  · exact returns_pure id

theorem marked_parseStructDecl : Marked (parseStructDecl p) := by
  refine returns_bind_any fun _ => returns_bind_any fun _ => returns_bind_any fun _ =>
    returns_bind_any fun _ => returns_bind_any fun _ => returns_bind_any fun _ =>
    returns_bind_any fun _ => returns_bind_any fun _ => ?_
  exact returns_pure id

theorem marked_parseClassDecl : Marked (parseClassDecl p) := by
  refine returns_bind_any fun _ => returns_bind_any fun _ => returns_bind_any fun _ =>
    returns_bind_any fun _ => returns_bind_any fun _ => returns_bind_any fun _ =>
    returns_bind_any fun _ => returns_bind_any fun members => returns_bind_any fun _ => ?_
  split
  · exact returns_throw
  · exact returns_pure id

theorem marked_parseVarDecl (isConst : Bool) : Marked (parseVarDecl p isConst) := by
  refine returns_bind_any fun _ => returns_bind_any fun _ => returns_bind_any fun _ =>
    returns_bind_any fun _ => returns_bind_any fun _ => returns_bind_any fun _ =>
    returns_bind_any fun _ => returns_bind_any fun _ => returns_bind_any fun _ => ?_
  exact returns_pure id

theorem marked_parsePrint : Marked (parsePrint p) := by
  refine returns_bind_any fun _ => returns_bind_any fun e => returns_bind_any fun c => ?_
  have hend : Marked (text >>= fun source => if endsStatement source then
      skipStatementEnd >>= fun _ => pure (.print (e.getD .null)) else null) := by
    refine returns_bind_any fun source => ?_
    split
    · exact returns_bind_any fun _ => returns_pure id
    · exact returns_throw
  split
  · exact returns_bind_any fun _ => hend
  · exact hend

theorem marked_parseIf : Marked (parseIf p) :=
  returns_bind_any fun _ => returns_bind_any fun _ => returns_bind_any fun _ =>
    returns_bind_any fun _ => returns_bind_any fun _ => returns_bind_any fun _ => returns_pure id

theorem marked_parseWhile : Marked (parseWhile p) :=
  returns_bind_any fun _ => returns_bind_any fun _ => returns_bind_any fun _ =>
    returns_bind_any fun _ => returns_bind_any fun _ => returns_pure id

theorem marked_parseFor : Marked (parseFor p) := by
  refine returns_bind_any fun _ => returns_bind_any fun _ => returns_bind_any fun name => ?_
  split
  · exact returns_throw
  · refine returns_bind_any fun _ => returns_bind_any fun _ => ?_
    split
    · exact returns_bind_any fun _ => returns_bind_any fun _ => returns_bind_any fun _ =>
        returns_bind_any fun _ => returns_bind_any fun _ => returns_pure id
    · exact returns_throw

/-- What a computation returns without a keyword, the last case of `parse_stmt` returns. -/
def OnlyLast (p : Parser) (m : Parse ASTStmt) : Prop :=
  ∀ s stmt t, stmt.IsUnmarked → EndsIn m s stmt t → EndsIn (parseAssignOrExpr p) s stmt t

theorem onlyLast_of_marked {m : Parse ASTStmt} (hm : Marked m) : OnlyLast p m :=
  fun s stmt _ hstmt h => absurd hstmt (hm s stmt h.1)

/-- A case of `parse_stmt` with a keyword. -/
theorem onlyLast_look {look : Parse Bool} {m m' : Parse ASTStmt} (hlook : ∀ s, look.final s = s)
    (hm : Marked m) (hm' : OnlyLast p m') :
    OnlyLast p (look >>= fun b => if b then m else m') := by
  intro s stmt t hstmt h
  obtain ⟨b, u, hb, h⟩ := endsIn_bind.mp h
  obtain rfl : s = u := (hlook s).symm.trans hb.2
  split at h
  · exact onlyLast_of_marked hm _ stmt t hstmt h
  · exact hm' _ stmt t hstmt h

/-- **A statement without a keyword comes from the last case** of `parse_stmt`. -/
theorem endsIn_parseStmt {s t : ParseState} {stmt : ASTStmt} (hstmt : stmt.IsUnmarked)
    (h : EndsIn (parseStmt p) s stmt t) :
    EndsIn (parseAssignOrExpr p) { s with rest := skipSpaceAndComments false s.rest } stmt t := by
  obtain ⟨_, _, ⟨-, rfl⟩, h⟩ := endsIn_bind.mp h
  have hlast : OnlyLast p (parseAssignOrExpr p) := fun _ _ _ _ h => h
  have hword : ∀ word s, (looksAtWord word).final s = s := fun _ _ => rfl
  have hlook : ∀ word s, (looksAt word).final s = s := fun _ _ => rfl
  refine onlyLast_look (hlook _) marked_parseImport ?_ _ stmt t hstmt h
  refine onlyLast_look (hlook _) marked_parseExport ?_
  refine onlyLast_look (hlook _) (returns_bind_any fun _ => returns_pure id) ?_
  refine onlyLast_look (hword _) marked_parseReturn ?_
  refine onlyLast_look (hlook _) marked_parseStructDecl ?_
  refine onlyLast_look (hlook _) marked_parseClassDecl ?_
  refine onlyLast_look (hlook _) (marked_parseVarDecl _) ?_
  refine onlyLast_look (hlook _) (marked_parseVarDecl _) ?_
  refine onlyLast_look (hlook _) (marked_parseVarDecl _) ?_
  refine onlyLast_look (hlook _) marked_parsePrint ?_
  refine onlyLast_look (hlook _) marked_parseIf ?_
  refine onlyLast_look (hlook _) marked_parseWhile ?_
  refine onlyLast_look (hlook _) marked_parseFor ?_
  refine onlyLast_look (hword _) (returns_bind_any fun _ => returns_pure id) ?_
  exact onlyLast_look (hword _) (returns_bind_any fun _ => returns_pure id) hlast

end Statements

/-! ### Texts that start with no keyword -/

/-- The words that start a statement. -/
def statementWords : List (List Char) :=
  ["import".toList, "export".toList, "def".toList, "return".toList, "struct".toList,
    "class".toList, "let".toList, "var".toList, "const".toList, "print".toList, "if".toList,
    "while".toList, "for".toList, "break".toList, "continue".toList]

/-- The words that also start a statement where a `_` follows, since the test for the end of the
word is one for a letter or a digit. -/
def openWords : List (List Char) :=
  ["return".toList, "break".toList, "continue".toList]

/-- A text that starts like a statement with a keyword, although its first word is another one. -/
def StartsOpen (source : List Char) : Prop :=
  ∃ word ∈ openWords, (word ++ ['_']).isPrefixOf source = true

instance (source : List Char) : Decidable (StartsOpen source) :=
  inferInstanceAs (Decidable (∃ word ∈ openWords, (word ++ ['_']).isPrefixOf source = true))

section Keywords

variable {source : List Char}

theorem leadingWord_of_starts {word : List Char} {c : Char}
    (hword : ∀ c ∈ word, isIdentChar c = true) (hc : isIdentChar c = false)
    (h : (word ++ [c]).isPrefixOf source = true) : leadingWord source = word := by
  obtain ⟨rest, rfl⟩ := List.isPrefixOf_iff_prefix.mp h
  rw [List.append_assoc]
  exact leadingWord_append hword (by rw [List.singleton_append, List.head?_cons, Option.any_some, hc])

theorem looksAtWord_cases {word : List Char} (hword : ∀ c ∈ word, isIdentChar c = true)
    (h : (word.isPrefixOf source && !(source.drop word.length).head?.any Char.isAlphanum) = true) :
    leadingWord source = word ∨ (word ++ ['_']).isPrefixOf source = true := by
  obtain ⟨hstarts, hend⟩ := Bool.and_eq_true_iff.mp h
  obtain ⟨rest, rfl⟩ := List.isPrefixOf_iff_prefix.mp hstarts
  rw [List.drop_left, Bool.not_eq_true'] at hend
  cases rest with
  | nil => exact .inl (leadingWord_append hword rfl)
  | cons c rest =>
      have hc : c.isAlphanum = false := hend
      by_cases hunder : c = '_'
      · subst hunder
        exact .inr (List.isPrefixOf_iff_prefix.mpr ⟨rest, List.append_assoc _ _ _⟩)
      · refine .inl (leadingWord_append hword ?_)
        rw [List.head?_cons, Option.any_some, isIdentChar, hc, beq_false_of_ne hunder, Bool.false_or]

theorem looksAtWord_of_under {word : List Char} (h : (word ++ ['_']).isPrefixOf source = true) :
    (word.isPrefixOf source && !(source.drop word.length).head?.any Char.isAlphanum) = true := by
  obtain ⟨rest, rfl⟩ := List.isPrefixOf_iff_prefix.mp h
  rw [List.append_assoc, List.drop_left, Bool.and_eq_true]
  exact ⟨List.isPrefixOf_iff_prefix.mpr ⟨_, rfl⟩, rfl⟩

section Agree

variable {p : Parser} (hword : leadingWord source ∉ statementWords)
include hword

theorem looksAt_false {word : List Char} {c : Char} (hmem : word ∈ statementWords)
    (hc : isIdentChar c = false) : (word ++ [c]).isPrefixOf source = false := by
  have hchars : ∀ word ∈ statementWords, ∀ c ∈ word, isIdentChar c = true := by decide
  rw [Bool.eq_false_iff]
  exact fun h => hword (leadingWord_of_starts (hchars word hmem) hc h ▸ hmem)

/-- A text that starts with no keyword, in front of a test for one. -/
theorem looksAt_agree {m m' m'' : Parse ASTStmt} (word : List Char) (c : Char)
    (hmem : word ∈ statementWords) (hc : isIdentChar c = false) (h : AgreeOn source m' m'') :
    AgreeOn source (looksAt (word ++ [c]) >>= fun b => if b then m else m') m'' := by
  refine (reads_looksAt _ source).agree.trans ?_
  rwa [looksAt_false hword hmem hc, if_neg Bool.false_ne_true]

theorem looksAtWord_agree {m m' m'' : Parse ASTStmt} (word : List Char) (hmem : word ∈ openWords)
    (hopen : ¬StartsOpen source) (h : AgreeOn source m' m'') :
    AgreeOn source (looksAtWord word >>= fun b => if b then m else m') m'' := by
  have hopenWord : ∀ word ∈ openWords, word ∈ statementWords ∧ ∀ c ∈ word, isIdentChar c = true := by
    decide
  obtain ⟨hstatement, hchars⟩ := hopenWord word hmem
  refine (reads_looksAtWord word source).agree.trans ?_
  rw [if_neg]
  · exact h
  · intro hlook
    obtain heq | hunder := looksAtWord_cases hchars hlook
    · exact hword (heq ▸ hstatement)
    · exact hopen ⟨word, hmem, hunder⟩

/-- **A text that starts with no keyword** is an assignment or an expression. -/
theorem parseStmt_agree (hsource : StartsToken source) (hopen : ¬StartsOpen source) :
    AgreeOn source (parseStmt p) (parseAssignOrExpr p) := by
  refine (reads_noSpace hsource).agree.trans ?_
  refine looksAt_agree hword "import".toList ' ' (by decide) rfl ?_
  refine looksAt_agree hword "export".toList ' ' (by decide) rfl ?_
  refine looksAt_agree hword "def".toList ' ' (by decide) rfl ?_
  refine looksAtWord_agree hword "return".toList (by decide) hopen ?_
  refine looksAt_agree hword "struct".toList ' ' (by decide) rfl ?_
  refine looksAt_agree hword "class".toList ' ' (by decide) rfl ?_
  refine looksAt_agree hword "let".toList ' ' (by decide) rfl ?_
  refine looksAt_agree hword "var".toList ' ' (by decide) rfl ?_
  refine looksAt_agree hword "const".toList ' ' (by decide) rfl ?_
  refine looksAt_agree hword "print".toList '(' (by decide) rfl ?_
  refine looksAt_agree hword "if".toList ' ' (by decide) rfl ?_
  refine looksAt_agree hword "while".toList ' ' (by decide) rfl ?_
  refine looksAt_agree hword "for".toList ' ' (by decide) rfl ?_
  refine looksAtWord_agree hword "break".toList (by decide) hopen ?_
  refine looksAtWord_agree hword "continue".toList (by decide) hopen ?_
  exact fun s _ => ⟨rfl, rfl⟩

end Agree

section Open

/-- What a computation returns on a text that starts with one of the words and a `_`. -/
def MarkedOn (source : List Char) (words : List (List Char)) (m : Parse ASTStmt) : Prop :=
  (∃ word ∈ words, (word ++ ['_']).isPrefixOf source = true) →
    ∀ s, s.rest = source → ∀ stmt, m.result s = .ok stmt → ¬stmt.IsUnmarked

theorem markedOn_look {words : List (List Char)} {look : Parse Bool} {m m' : Parse ASTStmt}
    (hlook : ∀ s, look.final s = s) (hm : Marked m) (hm' : MarkedOn source words m') :
    MarkedOn source words (look >>= fun b => if b then m else m') := by
  intro hwords s hs stmt h
  obtain ⟨b, -, h⟩ := result_bind_eq_ok.mp h
  rw [hlook s] at h
  split at h
  · exact hm s stmt h
  · exact hm' hwords s hs stmt h

/-- The word of this case is one of them. -/
theorem markedOn_word {word : List Char} {words : List (List Char)} {m m' : Parse ASTStmt}
    (hm : Marked m) (hm' : MarkedOn source words m') :
    MarkedOn source (word :: words) (looksAtWord word >>= fun b => if b then m else m') := by
  rintro ⟨first, hfirst, hunder⟩ s rfl stmt h
  obtain ⟨b, hb, h⟩ := result_bind_eq_ok.mp h
  obtain rfl := Except.ok.inj hb
  split at h
  · exact hm _ stmt h
  · rename_i hlook
    obtain rfl | hfirst := List.mem_cons.mp hfirst
    · exact absurd (looksAtWord_of_under hunder) hlook
    · exact hm' ⟨first, hfirst, hunder⟩ s rfl stmt h

/-- **A text that starts like a statement with a keyword** is no assignment and no expression. -/
theorem not_isUnmarked_of_startsOpen {p : Parser} {s : ParseState} {stmt : ASTStmt}
    (hopen : StartsOpen (skipSpaceAndComments false s.rest))
    (h : (parseStmt p).result s = .ok stmt) : ¬stmt.IsUnmarked := by
  obtain ⟨_, -, h⟩ := result_bind_eq_ok.mp h
  have hlook : ∀ word s, (looksAt word).final s = s := fun _ _ => rfl
  refine markedOn_look (hlook _) marked_parseImport ?_ hopen _ rfl stmt h
  refine markedOn_look (hlook _) marked_parseExport ?_
  refine markedOn_look (hlook _) (returns_bind_any fun _ => returns_pure id) ?_
  refine markedOn_word marked_parseReturn ?_
  refine markedOn_look (hlook _) marked_parseStructDecl ?_
  refine markedOn_look (hlook _) marked_parseClassDecl ?_
  refine markedOn_look (hlook _) (marked_parseVarDecl _) ?_
  refine markedOn_look (hlook _) (marked_parseVarDecl _) ?_
  refine markedOn_look (hlook _) (marked_parseVarDecl _) ?_
  refine markedOn_look (hlook _) marked_parsePrint ?_
  refine markedOn_look (hlook _) marked_parseIf ?_
  refine markedOn_look (hlook _) marked_parseWhile ?_
  refine markedOn_look (hlook _) marked_parseFor ?_
  refine markedOn_word (returns_bind_any fun _ => returns_pure id) ?_
  refine markedOn_word (returns_bind_any fun _ => returns_pure id) ?_
  rintro ⟨word, hword, -⟩
  cases hword

end Open

end Keywords

end BreadLang
