import BreadLang.Compiler.RoundTrip
import BreadLang.Compiler.StmtKinds

/-!
# Which statement a text is

`parse_stmt` tells statements apart by looking at characters: keywords by the first characters
of the text, and assignments by a scan for an operator, ahead of parsing.  The scan reads the
second `=` of a comparison as an assignment, so it finds an assignment in every expression with
an `=` outside of strings and brackets.
-/

namespace BreadLang

open Stateful Parse

/-! ### The scan for an operator -/

/-- An `=` outside of strings and brackets. -/
def topEquals (x : AssignScan) : List Char → Bool
  | [] => false
  | c :: text =>
      if x.inString then topEquals (x.stringStep c) text
      else if c == '"' then topEquals { x with inString := true } text
      else (c == '=' && (x.bracketStep c).atTop) || topEquals (x.bracketStep c) text

/-- The counters of the two scans are the same. -/
def Extent.scan (x : Extent) : AssignScan :=
  ⟨x.parens, x.brackets, x.braces, x.inString, x.escape⟩

/-- The end of a statement, or of the block it is in. -/
def EndsStatement (rest : List Char) : Prop :=
  ∀ c ∈ rest.head?, c = '\n' ∨ c = ';' ∨ c = '}'

section Scan

variable {x : Extent} {c : Char} {text rest : List Char}

theorem bracketStep_other (x : AssignScan)
    (hc : c ∉ ['(', ')', '[', ']', '{', '}']) : x.bracketStep c = x := by
  simp only [List.mem_cons, List.not_mem_nil, or_false, not_or] at hc
  obtain ⟨h₁, h₂, h₃, h₄, h₅, h₆⟩ := hc
  unfold AssignScan.bracketStep
  split <;> first | rfl | contradiction

/-- A character that the extent passes changes the counters of both scans alike. -/
theorem scan_of_codeStep {x' : Extent} (hquote : c ≠ '"') (h : x.codeStep c text = some x') :
    x'.scan = x.scan.bracketStep c ∧ ¬(c = '}' ∧ x.braces = 0) ∧
      ¬((c = '\n' ∨ c = ';') ∧ x.atTop = true) := by
  have hplain : ∀ d, d ∉ ['}', '\n', ';'] →
      ¬(d = '}' ∧ x.braces = 0) ∧ ¬((d = '\n' ∨ d = ';') ∧ x.atTop = true) := by
    intro d hd
    simp only [List.mem_cons, List.not_mem_nil, or_false, not_or] at hd
    exact ⟨fun h => hd.1 h.1, fun h => h.1.elim hd.2.1 hd.2.2⟩
  rw [Extent.codeStep, beq_false_of_ne hquote, if_neg Bool.false_ne_true] at h
  by_cases hopen : c = '{'
  · subst hopen
    have hstep : x' = { x with braces := x.braces + 1 } := by
      simp only [beq_self_eq_true, Bool.and_true] at h
      split at h
      · split at h
        · exact (Option.some.inj h).symm
        · cases h
      · exact (Option.some.inj h).symm
    exact ⟨by rw [hstep]; rfl, hplain _ (by decide)⟩
  · rw [beq_false_of_ne hopen, Bool.and_false, if_neg Bool.false_ne_true] at h
    split at h
    next hc =>
      obtain rfl := beq_iff_eq.mp hc
      obtain rfl := Option.some.inj h
      exact ⟨rfl, hplain _ (by decide)⟩
    next hparen =>
    split at h
    next hc =>
      obtain rfl := beq_iff_eq.mp hc
      split at h
      next => cases h
      next =>
        obtain rfl := Option.some.inj h
        exact ⟨rfl, hplain _ (by decide)⟩
    next hclose =>
    rw [if_neg Bool.false_ne_true] at h
    split at h
    next hc =>
      obtain rfl := beq_iff_eq.mp hc
      split at h
      next => cases h
      next hbraces =>
        obtain rfl := Option.some.inj h
        exact ⟨rfl, fun h => hbraces (beq_iff_eq.mpr h.2), fun h => absurd h.1 (by decide)⟩
    next hbrace =>
    split at h
    next hc =>
      obtain rfl := beq_iff_eq.mp hc
      obtain rfl := Option.some.inj h
      exact ⟨rfl, hplain _ (by decide)⟩
    next hbracket =>
    split at h
    next hc =>
      obtain rfl := beq_iff_eq.mp hc
      obtain rfl := Option.some.inj h
      exact ⟨rfl, hplain _ (by decide)⟩
    next hclosing =>
    split at h
    next => cases h
    next htop =>
      obtain rfl := Option.some.inj h
      simp only [beq_iff_eq] at hparen hclose hbrace hbracket hclosing
      refine ⟨(bracketStep_other _ ?_).symm, fun h => hbrace h.1, fun hend => htop ?_⟩
      · simp [hopen, hparen, hclose, hbrace, hbracket, hclosing]
      · obtain ⟨rfl | rfl, hatTop⟩ := hend <;> rw [hatTop] <;> rfl

/-- The scan stops at the end of a statement. -/
theorem scanAssign_ends (hrest : EndsStatement rest) (hextent : extentLength x rest = 0) :
    scanAssign x.scan rest = none := by
  cases rest with
  | nil => rfl
  | cons c rest =>
      have hstring : x.inString = false := by
        by_contra hin
        rw [Bool.not_eq_false] at hin
        rw [extentLength, if_pos hin] at hextent
        omega
      rw [extentLength, hstring, if_neg Bool.false_ne_true] at hextent
      have hstep : x.codeStep c rest = none := by
        by_contra hsome
        obtain ⟨x', hx'⟩ := Option.ne_none_iff_exists'.mp hsome
        rw [hx'] at hextent
        dsimp only at hextent
        omega
      -- The extent ends at a line break and at a `;` where no bracket is open.
      obtain rfl | rfl | rfl := hrest c rfl
      · have hatTop : x.parens = 0 ∧ x.braces = 0 ∧ x.brackets = 0 := by
          simpa [Extent.codeStep, Extent.atTop, and_assoc] using hstep
        simp [scanAssign, Extent.scan, hstring, AssignScan.bracketStep, AssignScan.atTop, hatTop,
          scanStop]
      · have hatTop : x.parens = 0 ∧ x.braces = 0 ∧ x.brackets = 0 := by
          simpa [Extent.codeStep, Extent.atTop, and_assoc] using hstep
        simp [scanAssign, Extent.scan, hstring, AssignScan.bracketStep, AssignScan.atTop, hatTop,
          scanStop]
      · have hbraces : x.braces = 0 := by
          simpa [Extent.codeStep] using hstep
        simp [scanAssign, Extent.scan, hstring, hbraces]

theorem scan_stringStep (x : Extent) (c : Char) :
    x.scan.stringStep c = (x.stringStep c).scan := by
  have hescape : x.scan.escape = x.escape := rfl
  rw [AssignScan.stringStep, Extent.stringStep, hescape]
  split
  · rfl
  · split
    · rfl
    · split <;> rfl

theorem bracketStep_inString (x : AssignScan) (c : Char) :
    (x.bracketStep c).inString = x.inString := by
  unfold AssignScan.bracketStep
  split <;> rfl

theorem scan_atTop (x : Extent) : x.scan.atTop = x.atTop := by
  rw [AssignScan.atTop, Extent.atTop, Extent.scan, Bool.and_right_comm]

/-- An `=` comes next. -/
theorem topEquals_of_head {x : AssignScan} (hrest : EndsStatement rest)
    (hnext : (text ++ rest).head? = some '=') (hstring : x.inString = false)
    (htop : x.atTop = true) : topEquals x text = true := by
  cases text with
  | nil =>
      obtain h | h | h := hrest '=' hnext <;> exact absurd h (by decide)
  | cons d text =>
      obtain rfl := Option.some.inj hnext
      have hstep : x.bracketStep '=' = x := bracketStep_other x (by decide)
      rw [topEquals, hstring, if_neg Bool.false_ne_true, if_neg (by decide), hstep, htop]
      rfl

/-- What the scan does outside of brackets, at a character that is passed. -/
theorem scanStop_cases (next : Option Char) (hend : ¬(c = '\n' ∨ c = ';')) :
    (∃ op, scanStop c next = .assign op ∧ (c = '=' ∨ next = some '=')) ∨
      scanStop c next = .goesOn ∧ (c = '=' → next = some '=') := by
  rw [scanStop]
  split
  · rename_i h
    exact .inl ⟨none, rfl, .inl (beq_iff_eq.mp (Bool.and_eq_true_iff.mp h).1)⟩
  · rename_i hassign
    split
    · rename_i h
      exact .inl ⟨some c, rfl, .inr (beq_iff_eq.mp (Bool.and_eq_true_iff.mp h).2)⟩
    · rw [if_neg (by simpa using hend)]
      refine .inr ⟨rfl, fun hc => ?_⟩
      by_contra hnext
      exact hassign (Bool.and_eq_true_iff.mpr ⟨beq_iff_eq.mpr hc, bne_iff_ne.mpr hnext⟩)

/-- **The scan for an operator** in a text that is as long as its extent finds one exactly where
there is an `=` outside of strings and brackets. -/
theorem scanAssign_isSome (hrest : EndsStatement rest) :
    ∀ (text : List Char) (x : Extent), extentLength x (text ++ rest) = text.length →
      (scanAssign x.scan (text ++ rest)).isSome = topEquals x.scan text := by
  intro text
  induction text with
  | nil =>
      intro x hextent
      rw [List.nil_append, scanAssign_ends hrest hextent]
      rfl
  | cons c text ih =>
      intro x hextent
      rw [List.cons_append, extentLength] at hextent
      rw [List.cons_append, scanAssign, topEquals]
      by_cases hin : x.inString = true
      · have hscan : x.scan.inString = true := hin
        rw [if_pos hin, List.length_cons, Nat.add_right_cancel_iff] at hextent
        rw [if_pos hscan, if_pos hscan, Option.isSome_map, scan_stringStep, ih _ hextent]
      · have hscan : ¬x.scan.inString = true := hin
        rw [if_neg hin] at hextent
        rw [if_neg hscan, if_neg hscan]
        have hsome : ∃ x', x.codeStep c (text ++ rest) = some x' := by
          by_contra hnone
          rw [Option.eq_none_iff_forall_not_mem.mpr fun x' hx' => hnone ⟨x', hx'⟩] at hextent
          cases hextent
        obtain ⟨x', hx'⟩ := hsome
        rw [hx', List.length_cons, Nat.add_right_cancel_iff] at hextent
        have htail := ih x' hextent
        by_cases hquote : c = '"'
        · subst hquote
          have hstep : x'.scan = { x.scan with inString := true } := by
            rw [Extent.codeStep, beq_self_eq_true, if_pos rfl] at hx'
            rw [← Option.some.inj hx']
            rfl
          rw [beq_self_eq_true, if_pos rfl, if_pos rfl, Option.isSome_map, ← hstep, htail]
        · obtain ⟨hstep, hbrace, hend⟩ := scan_of_codeStep hquote hx'
          have hstring : x'.scan.inString = false := by
            rw [hstep, bracketStep_inString]
            exact Bool.eq_false_iff.mpr hscan
          have hnotBrace : ¬(c == '}' && x.scan.braces == 0) = true := fun h =>
            hbrace ((Bool.and_eq_true_iff.mp h).imp beq_iff_eq.mp beq_iff_eq.mp)
          rw [beq_false_of_ne hquote, if_neg Bool.false_ne_true, if_neg Bool.false_ne_true,
            if_neg hnotBrace, ← hstep]
          dsimp only
          by_cases htop : x'.scan.atTop = true
          · have hend' : ¬(c = '\n' ∨ c = ';') := by
              intro hc
              refine hend ⟨hc, ?_⟩
              have hsame : x.scan.bracketStep c = x.scan :=
                bracketStep_other _ (by obtain rfl | rfl := hc <;> decide)
              rwa [hstep, hsame, scan_atTop] at htop
            rw [if_pos htop, htop, Bool.and_true]
            obtain ⟨op, hop, hc | hnext⟩ | ⟨hgoes, hnext⟩ :=
              scanStop_cases (text ++ rest).head? hend'
            · rw [hop, hc]
              rfl
            · rw [hop, topEquals_of_head hrest hnext hstring htop, Bool.or_true]
              rfl
            · rw [hgoes]
              dsimp only
              rw [Option.isSome_map, htail]
              by_cases hc : c = '='
              · rw [topEquals_of_head hrest (hnext hc) hstring htop, Bool.or_true]
              · rw [beq_false_of_ne hc, Bool.false_or]
          · rw [if_neg htop, Option.isSome_map, htail, Bool.eq_false_iff.mpr htop, Bool.and_false,
              Bool.false_or]

end Scan

/-! ### The text of an expression -/

/-- The text of an expression, in front of what comes next. -/
structure ExprText (p : Parser) (text rest : List Char) (e : ASTExpr) : Prop where
  reads : Reads (parseExpressionStr p) (text ++ rest) e rest
  token : StartsToken (text ++ rest)

section Text

variable {p : Parser} {text rest : List Char}

theorem trimSpace_cons {c : Char} (hc : isSpace c = false) (text : List Char) :
    ∃ text', trimSpace (c :: text) = c :: text' := by
  have hdrop : ∃ front, (c :: text).reverse.dropWhile isSpace = front ++ [c] := by
    rw [List.reverse_cons, List.dropWhile_append]
    split
    · exact ⟨[], by rw [List.dropWhile_cons, hc, if_neg Bool.false_ne_true, List.nil_append]⟩
    · exact ⟨_, rfl⟩
  obtain ⟨front, hfront⟩ := hdrop
  refine ⟨front.reverse, ?_⟩
  rw [trimSpace, hfront, List.reverse_append, List.reverse_singleton, List.singleton_append,
    List.dropWhile_cons, hc, if_neg Bool.false_ne_true]

/-- No expression starts with an `=`. -/
theorem fails_equals (text : List Char) :
    Fails (parseWholeExpression p) ('=' :: text) ('=' :: text) := by
  have htoken : StartsToken ('=' :: text) := startsToken_cons rfl (by decide)
  have hprimary : Fails (parsePrimary p) ('=' :: text) ('=' :: text) :=
    (parsePrimary_agree htoken (by rw [leadingWord]; exact of_decide_eq_false rfl)).fails
      ((reads_text _).fails (fails_syntaxError _ _))
  have hunary : Fails (parseUnary p) ('=' :: text) ('=' :: text) := by
    refine fails_unary_of_primary htoken (fun c hc => ?_) hprimary htoken fun c next heq => ?_
    · obtain rfl := Option.some.inj hc
      decide
    · obtain ⟨rfl, rfl⟩ := List.cons.inj heq
      exact ⟨by decide, by decide, by decide, by decide, fun h => absurd h.1 (by decide)⟩
  exact (fails_logicalOr_of_unary hunary).bind

theorem head_ne_equals {e : ASTExpr} (h : Reads (parseExpressionStr p) text e rest) :
    text.head? ≠ some '=' := by
  intro heq
  obtain ⟨next, rfl⟩ : ∃ next, text = '=' :: next := by
    cases text with
    | nil => cases heq
    | cons c next => exact ⟨next, by rw [Option.some.inj heq]⟩
  have hextent : extentLength .start ('=' :: next) = extentLength .start next + 1 := rfl
  obtain ⟨text', htrim⟩ := trimSpace_cons (c := '=') rfl (next.take (extentLength .start next))
  have hfails : Fails (parseExpressionStr p) ('=' :: next)
      (next.drop (extentLength .start next)) := by
    refine (reads_text _).fails ((reads_advance _ _ (extentLength_le _ _)).fails ?_)
    rw [hextent, List.take_succ_cons, htrim]
    exact (fails_equals text').onText _
  exact h.not_fails hfails

end Text

/-! ### Assignments -/

/-- The characters of an assignment operator. -/
def operatorText : Option Char → List Char
  | none => ['=']
  | some c => [c, '=']

/-- The operators of a compound assignment. -/
def compoundOperators : List Char := ['+', '-', '*', '/', '%']

/-- The characters at which the scan for an operator looks. -/
def scannedChars : List Char :=
  ['"', '(', ')', '[', ']', '{', '}', '=', '\n', ';'] ++ compoundOperators

section Assign

variable {text rest : List Char}

theorem scanAssign_cons {c : Char} (hc : c ∉ scannedChars) (text : List Char) :
    scanAssign .start (c :: text) =
      (scanAssign .start text).map fun scan => (c :: scan.1, scan.2) := by
  simp only [scannedChars, compoundOperators, List.cons_append, List.nil_append, List.mem_cons,
    List.not_mem_nil, or_false, not_or] at hc
  have hstep : AssignScan.start.bracketStep c = .start :=
    bracketStep_other _ (by simp [hc])
  have hgoes : scanStop c text.head? = .goesOn := by
    simp [scanStop, hc]
  rw [scanAssign, hstep]
  simp only [hgoes]
  simp [AssignScan.start, AssignScan.atTop, hc]

/-- The scan passes a name and blanks. -/
theorem scanAssign_append {before : List Char} (hbefore : ∀ c ∈ before, c ∉ scannedChars)
    (text : List Char) :
    scanAssign .start (before ++ text) =
      (scanAssign .start text).map fun scan => (before ++ scan.1, scan.2) := by
  induction before with
  | nil =>
      rw [List.nil_append]
      cases scanAssign .start text <;> rfl
  | cons c before ih =>
      obtain ⟨hc, hbefore⟩ := List.forall_mem_cons.mp hbefore
      rw [List.cons_append, scanAssign_cons hc, ih hbefore, Option.map_map]
      rfl

theorem scanAssign_operator {op : Option Char} (hop : ∀ c ∈ op, c ∈ compoundOperators)
    (hnext : text.head? ≠ some '=') : scanAssign .start (operatorText op ++ text) = some ([], op) := by
  cases op with
  | none =>
      have hstop : scanStop '=' text.head? = .assign none := by
        rw [scanStop, if_pos]
        simpa using hnext
      simp [operatorText, scanAssign, AssignScan.start, AssignScan.bracketStep, AssignScan.atTop,
        hstop]
  | some c =>
      have hc := hop c rfl
      simp only [compoundOperators, List.mem_cons, List.not_mem_nil, or_false] at hc
      obtain rfl | rfl | rfl | rfl | rfl := hc <;> rfl

theorem identChar_not_scanned {c : Char} (hc : isIdentChar c = true) : c ∉ scannedChars := by
  have hscanned : ∀ d ∈ scannedChars, isIdentChar d = false := by decide
  exact fun hmem => Bool.false_ne_true ((hscanned c hmem).symm.trans hc)

theorem blank_cases {c : Char} (hc : isBlank c = true) : c = ' ' ∨ c = '\t' ∨ c = '\r' := by
  simpa [isBlank, or_assoc] using hc

theorem isSpace_of_blank {c : Char} (hc : isBlank c = true) : isSpace c = true := by
  obtain rfl | rfl | rfl := blank_cases hc <;> rfl

theorem blank_not_scanned {c : Char} (hc : isBlank c = true) : c ∉ scannedChars := by
  obtain rfl | rfl | rfl := blank_cases hc <;> decide

/-- A name with blanks behind it. -/
theorem trimSpace_name {name blanks : List Char} (hname : IsIdentifier name)
    (hblanks : ∀ c ∈ blanks, isBlank c = true) : trimSpace (name ++ blanks) = name := by
  have hspace : ∀ c ∈ blanks.reverse, isSpace c = true := fun c hc =>
    isSpace_of_blank (hblanks c (List.mem_reverse.mp hc))
  have hself := trimSpace_eq_self fun c hc => isSpace_of_identChar (hname.chars c hc)
  rw [trimSpace, List.reverse_append, List.dropWhile_append_of_pos hspace, ← trimSpace, hself]

theorem reads_assignTarget_name {p : Parser} {name : List Char} (hname : IsIdentifier name)
    (source : List Char) : Reads (parseAssignTarget p name) source .null source := by
  rw [parseAssignTarget, if_neg (bracket_not_mem hname), if_neg (dot_not_mem hname)]
  exact reads_pure _ _

/-- `parse_stmt` on a name, an operator and an expression. -/
theorem reads_assignment {p : Parser} {name blanks space value : List Char} {op : Option Char}
    {e : ASTExpr} (hname : IsIdentifier name) (hblanks : ∀ c ∈ blanks, isBlank c = true)
    (hspace : ∀ c ∈ space, isSpace c = true) (hop : ∀ c ∈ op, c ∈ compoundOperators)
    (htoken : StartsToken (value ++ rest)) (hhead : (value ++ rest).head? ≠ some '=')
    (hvalue : Reads (parseExpressionStr p) (value ++ rest) e rest) :
    Reads (parseAssignOrExpr p) (name ++ blanks ++ (operatorText op ++ (space ++ (value ++ rest))))
      (.varAssign name e op) rest := by
  have hbefore : ∀ c ∈ name ++ blanks, c ∉ scannedChars := by
    intro c hc
    obtain hc | hc := List.mem_append.mp hc
    · exact identChar_not_scanned (hname.chars c hc)
    · exact blank_not_scanned (hblanks c hc)
  have hnext : (space ++ (value ++ rest)).head? ≠ some '=' := by
    cases space with
    | nil => exact hhead
    | cons c space =>
        intro heq
        obtain rfl := Option.some.inj heq
        exact absurd (hspace '=' List.mem_cons_self) (by decide)
  have hscan := scanAssign_append hbefore (operatorText op ++ (space ++ (value ++ rest)))
  rw [scanAssign_operator hop hnext, Option.map_some, List.append_nil] at hscan
  refine (reads_text _).bind ?_
  rw [hscan]
  -- The name is taken as it stands.
  refine (reads_advanceOver (name ++ blanks) _).bind ?_
  dsimp only
  rw [trimSpace_name hname hblanks]
  refine (reads_assignTarget_name hname _).bind ?_
  have hoperator : Reads (advance (if op.isSome then 2 else 1))
      (operatorText op ++ (space ++ (value ++ rest))) () (space ++ (value ++ rest)) := by
    cases op with
    | none => exact reads_advance 1 _ (by simp [operatorText])
    | some c => exact reads_advance 2 _ (by simp [operatorText])
  exact hoperator.bind ((reads_spaces hspace htoken).bind (hvalue.bind (reads_pure _ _)))

end Assign

/-! ### The statements of the two kinds -/

/-- **What is written**: an assignment to a name that is no keyword, or an expression that does
not start with one. -/
inductive Written (p : Parser) (rest : List Char) : List Char → ASTStmt → Prop
  | assign {name blanks space value : List Char} {op : Option Char} {e : ASTExpr}
      (hname : IsIdentifier name) (hword : name ∉ statementWords)
      (hblanks : ∀ c ∈ blanks, isBlank c = true) (hop : ∀ c ∈ op, c ∈ compoundOperators)
      (hspace : ∀ c ∈ space, isSpace c = true) (hvalue : ExprText p value rest e) :
      Written p rest (name ++ blanks ++ (operatorText op ++ (space ++ value))) (.varAssign name e op)
  | expr {text : List Char} {e : ASTExpr} (htext : ExprText p text rest e)
      (hword : leadingWord (text ++ rest) ∉ statementWords) (hrest : EndsStatement rest) :
      Written p rest text (.expr e)

section Written

variable {p : Parser} {text rest : List Char} {stmt : ASTStmt}

theorem identifier_cons {name : List Char} (hname : IsIdentifier name) :
    ∃ c next, name = c :: next ∧ isIdentStart c = true := by
  cases name with
  | nil => exact absurd hname.start Bool.false_ne_true
  | cons c next => exact ⟨c, next, rfl, hname.start⟩

/-- What is written starts with no keyword. -/
theorem Written.starts (h : Written p rest text stmt) :
    StartsToken (text ++ rest) ∧ leadingWord (text ++ rest) ∉ statementWords ∧
      stmt.IsUnmarked := by
  cases h with
  | expr htext hword => exact ⟨htext.token, hword, trivial⟩
  | @assign name blanks space value op e hname hword hblanks hop =>
      have hends : (blanks ++ (operatorText op ++ (space ++ value)) ++ rest).head?.any
          isIdentChar = false := by
        cases blanks with
        | nil =>
            cases op with
            | none => rfl
            | some c =>
                have hc : ∀ c ∈ compoundOperators, isIdentChar c = false := by decide
                exact hc c (hop c rfl)
        | cons c blanks =>
            obtain rfl | rfl | rfl := blank_cases (hblanks c List.mem_cons_self) <;> rfl
      have hleading := leadingWord_append hname.chars hends
      rw [← List.append_assoc, ← List.append_assoc] at hleading
      refine ⟨?_, by rwa [hleading], trivial⟩
      obtain ⟨c, next, rfl, hc⟩ := identifier_cons hname
      exact startsToken_identStart hc

theorem isAssignment_assignTo (name : Ident) (op : Option Char) (value target : ASTExpr) :
    (assignTo name op value target).IsAssignment := by
  unfold assignTo
  split
  · split <;> trivial
  · split <;> trivial
  · trivial

theorem returns_parseAssign (before : List Char) (op : Option Char) :
    Returns (parseAssign p before op) ASTStmt.IsAssignment :=
  returns_bind_any fun _ => returns_bind_any fun target => returns_bind_any fun _ =>
    returns_bind_any fun _ => returns_bind_any fun value =>
    returns_pure (isAssignment_assignTo _ op value target)

/-- An expression with an `=` is not read as one. -/
theorem topEquals_of_reads {e e' : ASTExpr} (htext : ExprText p text rest e)
    (hrest : EndsStatement rest) (h : Reads (parseAssignOrExpr p) (text ++ rest) (.expr e') rest) :
    topEquals .start text = false := by
  have hscan := scanAssign_isSome hrest text .start (extentLength_of_reads htext.reads)
  rw [Bool.eq_false_iff]
  intro htop
  obtain ⟨scan, hsome⟩ := Option.isSome_iff_exists.mp (hscan.trans htop)
  have hresult := (h ⟨text ++ rest, none, false, [], false⟩ rfl).1
  obtain ⟨source, hsource, hresult⟩ := result_bind_eq_ok.mp hresult
  obtain rfl := Except.ok.inj hsource
  have hstart : scanAssign .start (text ++ rest) = some scan := hsome
  rw [hstart] at hresult
  exact returns_parseAssign scan.1 scan.2 _ _ hresult

/-- **A written statement is parsed as it is written** exactly where it does not start like one
with a keyword and, where it is an expression, no `=` stands outside of strings and brackets. -/
theorem stmt_classified_iff (h : Written p rest text stmt) :
    Reads (parseStmt p) (text ++ rest) stmt rest ↔
      ¬StartsOpen (text ++ rest) ∧ (stmt.IsAssignment ∨ topEquals .start text = false) := by
  obtain ⟨htoken, hword, hstmt⟩ := h.starts
  constructor
  · intro hread
    have hopen : ¬StartsOpen (text ++ rest) := by
      intro hopen
      have hresult := (hread ⟨text ++ rest, none, false, [], false⟩ rfl).1
      exact not_isUnmarked_of_startsOpen (htoken.symm ▸ hopen) hresult hstmt
    refine ⟨hopen, ?_⟩
    cases h with
    | assign => exact .inl trivial
    | expr htext _ hrest =>
        have hagree := parseStmt_agree (p := p) hword htoken hopen
        exact .inr (topEquals_of_reads htext hrest (hagree.symm.reads hread))
  · rintro ⟨hopen, hkind⟩
    refine (parseStmt_agree hword htoken hopen).reads ?_
    cases h with
    | assign hname _ hblanks hop hspace hvalue =>
        have hread := reads_assignment hname hblanks hspace hop hvalue.token
          (head_ne_equals hvalue.reads) hvalue.reads
        simpa only [List.append_assoc] using hread
    | expr htext _ hrest =>
        have htop : topEquals .start text = false := hkind.resolve_left id
        have hscan := scanAssign_isSome hrest text .start (extentLength_of_reads htext.reads)
        have hnone : scanAssign .start (text ++ rest) = none :=
          Option.not_isSome_iff_eq_none.mp fun hsome => by
            rw [show scanAssign .start (text ++ rest) = scanAssign Extent.start.scan (text ++ rest)
              from rfl, hscan] at hsome
            exact Bool.false_ne_true (htop.symm.trans hsome)
        refine (reads_text _).bind ?_
        rw [hnone]
        exact htext.reads.bind (reads_pure _ _)

end Written

section Inputs

theorem exprText_digit (conversions : Conversions) :
    ExprText (parser conversions 6) "1".toList [] (.int 1) :=
  ⟨reads_expressionStr_rendered conversions (.plain (Nat.zero_le _) (body_digit rfl rfl (by decide)))
    (by decide) rfl rfl, rfl⟩

theorem exprText_equal (conversions : Conversions) :
    ExprText (parser conversions 6) "a == b".toList []
      (.binary '=' (.var "a".toList) (.var "b".toList)) := by
  have htext : Rendered true 0 (.binary '=' (.var "a".toList) (.var "b".toList)) "a == b".toList :=
    .plain (Nat.zero_le _) (.binary (rfl : operatorSyntax '=' = _) isSpaces_blank isSpaces_blank
      (.plain (by decide) (.var ⟨rfl, by decide⟩ (by decide)))
      (.plain (by decide) (.var ⟨rfl, by decide⟩ (by decide))))
  exact ⟨reads_expressionStr_rendered conversions htext (by decide) rfl rfl, rfl⟩

/-- `x = 1`, with a name that is no keyword. -/
theorem written_assign (conversions : Conversions) (name : List Char) (hname : IsIdentifier name)
    (hword : name ∉ statementWords) :
    Written (parser conversions 6) [] (name ++ " ".toList ++ (operatorText none ++ " 1".toList))
      (.varAssign name (.int 1) none) :=
  @Written.assign _ _ name " ".toList " ".toList "1".toList none (.int 1) hname hword (by decide)
    (fun _ h => by cases h) (by decide) (exprText_digit conversions)

/-- `x = 1` is an assignment to `x`. -/
theorem assignment_classified :
    Reads (parseStmt (parser ⟨fun _ => 0, fun _ => ⟨0⟩⟩ 6)) "x = 1".toList
      (.varAssign "x".toList (.int 1) none) [] :=
  (stmt_classified_iff (written_assign _ "x".toList ⟨rfl, by decide⟩ (by decide))).mpr
    ⟨by decide, .inl trivial⟩

/-- `a == b` is no expression statement, and `return_x = 1` no assignment. -/
theorem comparison_not_classified :
    ∃ p,
      (Written p [] "a == b".toList (.expr (.binary '=' (.var "a".toList) (.var "b".toList))) ∧
        ¬Reads (parseStmt p) "a == b".toList
          (.expr (.binary '=' (.var "a".toList) (.var "b".toList))) []) ∧
      Written p [] "return_x = 1".toList (.varAssign "return_x".toList (.int 1) none) ∧
        ¬Reads (parseStmt p) "return_x = 1".toList (.varAssign "return_x".toList (.int 1) none) [] := by
  have hequal := exprText_equal ⟨fun _ => 0, fun _ => ⟨0⟩⟩
  have hends : EndsStatement [] := fun c hc => by cases hc
  refine ⟨parser ⟨fun _ => 0, fun _ => ⟨0⟩⟩ 6, ⟨.expr hequal (by decide) hends, fun h => ?_⟩,
    written_assign _ "return_x".toList ⟨rfl, by decide⟩ (by decide), fun h => ?_⟩
  · have hagree : AgreeOn "a == b".toList (parseStmt (parser ⟨fun _ => 0, fun _ => ⟨0⟩⟩ 6)) _ :=
      parseStmt_agree (by decide) rfl (by decide)
    have htop := topEquals_of_reads hequal hends (hagree.symm.reads h)
    exact absurd htop (by decide)
  · have hopen : StartsOpen (skipSpaceAndComments false "return_x = 1".toList) := by decide
    exact not_isUnmarked_of_startsOpen (s := ⟨"return_x = 1".toList, none, false, [], false⟩) hopen
      (h ⟨"return_x = 1".toList, none, false, [], false⟩ rfl).1 trivial

end Inputs

end BreadLang
