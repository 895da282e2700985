import BreadLang.Compiler.Reading

/-!
# Reading operands and operators

One lemma for each function of the expression parser between the operands and
`parse_expression`.  What stands behind an operand must not continue it: `Stops k` says that
no operator that binds as tight as the level `k`, or tighter, comes next.
-/

namespace BreadLang

open Stateful Parse

variable {p : Parser} {e base : ASTExpr} {source rest : List Char}

/-! ### What ends an operand -/

/-- No postfix operator comes next, and nothing that would make a name a call or a struct. -/
def EndsPostfix (rest : List Char) : Prop :=
  ∀ c text, rest = c :: text →
    c ≠ '{' ∧ c ≠ '(' ∧ c ≠ '[' ∧ c ≠ '.' ∧ ¬(c = '?' ∧ text.head? = some '.')

theorem endsPostfix_nil : EndsPostfix [] := by
  rintro c text h
  cases h

/-! ### Words -/

/-- A name of the language. -/
structure IsIdentifier (name : List Char) : Prop where
  start : name.head?.any isIdentStart = true
  chars : ∀ c ∈ name, isIdentChar c = true

/-- The word at the start of a text; there may be none. -/
def leadingWord (source : List Char) : List Char :=
  source.takeWhile isIdentChar

section Words

variable {name : List Char}

theorem bracket_not_mem (hname : IsIdentifier name) : '[' ∉ name :=
  fun hmem => absurd (hname.chars _ hmem) (by decide)

theorem dot_not_mem (hname : IsIdentifier name) : '.' ∉ name :=
  fun hmem => absurd (hname.chars _ hmem) (by decide)

theorem isIdentChar_of_start {c : Char} (hc : isIdentStart c = true) : isIdentChar c = true := by
  rw [isIdentStart, Bool.or_eq_true] at hc
  rw [isIdentChar, Bool.or_eq_true]
  exact hc.imp_left fun halpha => Bool.or_eq_true_iff.mpr (.inl halpha)

/-- A word with which a text starts, if no character of a name follows, is the leading one. -/
theorem isPrefixOf_and_ends {word : List Char} (hword : ∀ c ∈ word, isIdentChar c = true)
    (source : List Char) :
    (word.isPrefixOf source && !(source.drop word.length).head?.any isIdentChar) =
      (word == leadingWord source) := by
  induction word generalizing source with
  | nil =>
      cases source with
      | nil => rfl
      | cons c source => cases hc : isIdentChar c <;> simp [leadingWord, hc]
  | cons c word ih =>
      obtain ⟨hc, hword⟩ := List.forall_mem_cons.mp hword
      cases source with
      | nil => rfl
      | cons d source =>
          have htail := ih hword source
          by_cases hcd : c = d
          · subst hcd
            simpa [leadingWord, hc] using htail
          · have hne : (c :: word == leadingWord (d :: source)) = false := by
              refine beq_false_of_ne fun heq => ?_
              rw [leadingWord, List.takeWhile_cons] at heq
              split at heq
              · exact hcd (List.cons.inj heq).1
              · cases heq
            rw [hne, List.isPrefixOf_cons_cons, beq_false_of_ne hcd, Bool.false_and, Bool.false_and]

theorem leadingWord_append {name rest : List Char} (hname : ∀ c ∈ name, isIdentChar c = true)
    (hrest : rest.head?.any isIdentChar = false) : leadingWord (name ++ rest) = name := by
  rw [leadingWord, List.takeWhile_append_of_pos hname]
  cases rest with
  | nil => exact List.append_nil name
  | cons c rest =>
      have hc : isIdentChar c = false := hrest
      rw [List.takeWhile_cons, hc, if_neg Bool.false_ne_true, List.append_nil]

theorem dropWhile_append {name rest : List Char} (hname : ∀ c ∈ name, isIdentChar c = true)
    (hrest : rest.head?.any isIdentChar = false) :
    (name ++ rest).dropWhile isIdentChar = rest := by
  rw [List.dropWhile_append_of_pos hname]
  cases rest with
  | nil => rfl
  | cons c rest =>
      have hc : isIdentChar c = false := hrest
      rw [List.dropWhile_cons, hc, if_neg Bool.false_ne_true]

theorem identStart_ne {c d : Char} (hc : isIdentStart c = true) (hd : isIdentStart d = false) :
    c ≠ d := by
  rintro rfl
  exact Bool.false_ne_true (hd.symm.trans hc)

theorem startsToken_identStart {c : Char} {source : List Char} (hc : isIdentStart c = true) :
    StartsToken (c :: source) := by
  refine startsToken_cons ?_ (identStart_ne hc rfl)
  simp [isSpace, identStart_ne hc (d := ' ') rfl, identStart_ne hc (d := '\t') rfl,
    identStart_ne hc (d := '\n') rfl, identStart_ne hc (d := '\r') rfl,
    identStart_ne hc (d := '\x0b') rfl, identStart_ne hc (d := '\x0c') rfl]

end Words

/-! ### Operands -/

/-- The words for which `parse_primary` looks. -/
def literalWords : List (List Char) :=
  ["nil".toList, "true".toList, "false".toList]

/-- `parse_primary` in front of a text that starts with none of them. -/
theorem parsePrimary_agree (hsource : StartsToken source)
    (hword : leadingWord source ∉ literalWords) :
    AgreeOn source (parsePrimary p) (parseOperand p) := by
  have hne : ∀ word ∈ literalWords, (word == leadingWord source) = false := by
    intro word hmem
    exact beq_false_of_ne fun heq => hword (heq ▸ hmem)
  refine (reads_noSpace hsource).agree.trans ?_
  refine (reads_looksAtKeyword _ source).agree.trans ?_
  rw [isPrefixOf_and_ends (by decide), hne _ (by decide), if_neg Bool.false_ne_true]
  refine (reads_looksAtKeyword _ source).agree.trans ?_
  rw [isPrefixOf_and_ends (by decide), hne _ (by decide), if_neg Bool.false_ne_true]
  refine (reads_looksAtKeyword _ source).agree.trans ?_
  rw [isPrefixOf_and_ends (by decide), hne _ (by decide), if_neg Bool.false_ne_true]
  exact fun s _ => ⟨rfl, rfl⟩

theorem digit_ne {c d : Char} (hc : c.isDigit = true) (hd : d.isDigit = false) : c ≠ d := by
  rintro rfl
  exact Bool.false_ne_true (hd.symm.trans hc)

theorem startsToken_digit {c : Char} (hc : c.isDigit = true) : StartsToken (c :: source) := by
  refine startsToken_cons ?_ (digit_ne hc rfl)
  simp [isSpace, digit_ne hc (d := ' ') rfl, digit_ne hc (d := '\t') rfl,
    digit_ne hc (d := '\n') rfl, digit_ne hc (d := '\r') rfl, digit_ne hc (d := '\x0b') rfl,
    digit_ne hc (d := '\x0c') rfl]

/-- `parse_primary` in front of a digit. -/
theorem parsePrimary_digit {c : Char} (hc : c.isDigit = true) :
    AgreeOn (c :: source) (parsePrimary p) (parseNumber p) := by
  have hchar : isIdentChar c = true := by
    rw [isIdentChar, Char.isAlphanum, hc, Bool.or_true, Bool.true_or]
  have hword : leadingWord (c :: source) ∉ literalWords := by
    rw [leadingWord, List.takeWhile_cons_of_pos hchar]
    intro hmem
    have hhead : ∀ word ∈ literalWords, word.head?.any Char.isDigit = false := by decide
    have hdigit := hhead _ hmem
    rw [List.head?_cons, Option.any_some, hc] at hdigit
    cases hdigit
  refine (parsePrimary_agree (startsToken_digit hc) hword).trans ?_
  refine (reads_text (c :: source)).agree.trans ?_
  split
  next heq => cases heq
  next heq => exact absurd (List.cons.inj heq).1 (digit_ne hc rfl)
  next heq => exact absurd (List.cons.inj heq).1 (digit_ne hc rfl)
  next d next heq =>
    obtain ⟨rfl, rfl⟩ := List.cons.inj heq
    rw [hc, Bool.true_or, if_pos rfl]
    exact fun s _ => ⟨rfl, rfl⟩

theorem isDigit_of_identStart {c : Char} (hc : isIdentStart c = true) : c.isDigit = false := by
  by_contra h
  have hdigit : c.isDigit = true := by simpa using h
  rw [isIdentStart, Bool.or_eq_true] at hc
  obtain ⟨-, hmax⟩ := Char.isDigit_iff_toNat.mp hdigit
  obtain halpha | hunder := hc
  · obtain hupper | hlower := Bool.or_eq_true_iff.mp halpha
    · have hmin : 'A'.val ≤ c.val := (of_decide_eq_true hupper).1
      exact absurd ((UInt32.le_iff_toNat_le.mp hmin).trans hmax) (by decide)
    · have hmin : 'a'.val ≤ c.val := of_decide_eq_true (Bool.and_eq_true_iff.mp hlower).1
      exact absurd ((UInt32.le_iff_toNat_le.mp hmin).trans hmax) (by decide)
  · obtain rfl := beq_iff_eq.mp hunder
    exact absurd hdigit (by decide)

/-- `parse_primary` in front of a name. -/
theorem parsePrimary_name {c : Char} (hc : isIdentStart c = true)
    (hword : leadingWord (c :: source) ∉ literalWords) :
    AgreeOn (c :: source) (parsePrimary p) (takeChars isIdentChar >>= parseAfterName p) := by
  refine (parsePrimary_agree (startsToken_identStart hc) hword).trans ?_
  refine (reads_text (c :: source)).agree.trans ?_
  split
  next heq => cases heq
  next heq => exact absurd (List.cons.inj heq).1 (identStart_ne hc rfl)
  next heq => exact absurd (List.cons.inj heq).1 (identStart_ne hc rfl)
  next d next heq =>
    obtain ⟨rfl, rfl⟩ := List.cons.inj heq
    rw [isDigit_of_identStart hc, beq_false_of_ne (identStart_ne hc rfl), Bool.false_and,
      Bool.false_or, if_neg Bool.false_ne_true, beq_false_of_ne (identStart_ne hc rfl),
      if_neg Bool.false_ne_true, if_pos hc]
    refine (reads_noSpace (startsToken_identStart hc)).agree.trans ?_
    refine (reads_peek (c :: source)).agree.trans ?_
    rw [List.head?_cons, Option.any_some, if_pos hc]
    exact fun s _ => ⟨rfl, rfl⟩

section Names

variable (rest) {name : List Char} (hname : IsIdentifier name)
  (hrest : rest.head?.any isIdentChar = false)
include hname hrest

theorem reads_takeName : Reads (takeChars isIdentChar) (name ++ rest) name rest := by
  have h := reads_takeChars isIdentChar (name ++ rest)
  rw [dropWhile_append hname.chars hrest] at h
  rwa [← leadingWord, leadingWord_append hname.chars hrest] at h

theorem parsePrimary_identifier (hliteral : name ∉ literalWords) :
    AgreeOn (name ++ rest) (parsePrimary p) (takeChars isIdentChar >>= parseAfterName p) := by
  have hword := leadingWord_append hname.chars hrest
  cases name with
  | nil => exact absurd hname.start Bool.false_ne_true
  | cons c name => exact parsePrimary_name hname.start fun hmem => hliteral (hword ▸ hmem)

/-- `parse_identifier_expr` on a name that is no call and no struct literal. -/
theorem reads_variable (hliteral : name ∉ literalWords) (hself : name ≠ "self".toList)
    (hsuper : name ≠ "super".toList) {mid : List Char} (hmid : Reads skipWhitespace rest () mid)
    (hends : ∀ c ∈ mid.head?, c ≠ '{' ∧ c ≠ '(') :
    Reads (parsePrimary p) (name ++ rest) (.var name) mid := by
  refine (parsePrimary_identifier rest hname hrest hliteral).reads
    ((reads_takeName rest hname hrest).bind ?_)
  rw [parseAfterName, beq_false_of_ne hself, if_neg Bool.false_ne_true, beq_false_of_ne hsuper,
    if_neg Bool.false_ne_true]
  refine hmid.bind ((reads_peek mid).bind ?_)
  split
  next heq => exact absurd rfl (hends _ heq).1
  next heq => exact absurd rfl (hends _ heq).2
  next => exact reads_pure _ _

/-- `self` and `super`. -/
theorem reads_self_or_super (hliteral : name ∉ literalWords) {base : ASTExpr}
    (hbase : name = "self".toList ∧ base = .self ∨ name = "super".toList ∧ base = .super) :
    Reads (parsePrimary p) (name ++ rest) base rest := by
  refine (parsePrimary_identifier rest hname hrest hliteral).reads
    ((reads_takeName rest hname hrest).bind ?_)
  obtain ⟨rfl, rfl⟩ | ⟨rfl, rfl⟩ := hbase
  · exact reads_pure _ _
  · exact reads_pure _ _

end Names

/-- `nil`, `true` and `false`. -/
theorem reads_literalWord (rest : List Char) {word : List Char}
    (hrest : rest.head?.any isIdentChar = false)
    (hbase : word = "nil".toList ∧ base = .nil ∨ word = "true".toList ∧ base = .bool true ∨
      word = "false".toList ∧ base = .bool false) :
    Reads (parsePrimary p) (word ++ rest) base rest := by
  have hlook : ∀ keyword ∈ literalWords, ∀ word ∈ literalWords,
      Reads (looksAtKeyword keyword) (word ++ rest) (keyword == word) (word ++ rest) := by
    intro keyword hkeyword word hword
    have hchars : ∀ word ∈ literalWords, ∀ c ∈ word, isIdentChar c = true := by decide
    have h := reads_looksAtKeyword keyword (word ++ rest)
    rwa [isPrefixOf_and_ends (hchars _ hkeyword), leadingWord_append (hchars _ hword) hrest] at h
  have hstart : ∀ word ∈ literalWords, StartsToken (word ++ rest) := by
    intro word hword
    simp only [literalWords, List.mem_cons, List.not_mem_nil, or_false] at hword
    obtain rfl | rfl | rfl := hword
    · exact startsToken_identStart (c := 'n') rfl
    · exact startsToken_identStart (c := 't') rfl
    · exact startsToken_identStart (c := 'f') rfl
  obtain ⟨rfl, rfl⟩ | ⟨rfl, rfl⟩ | ⟨rfl, rfl⟩ := hbase
  · refine (reads_noSpace (hstart _ (by decide))).bind ?_
    refine (hlook _ (by decide) _ (by decide)).bind ?_
    exact (reads_advance 3 _ (by simp)).bind (reads_pure _ _)
  · refine (reads_noSpace (hstart _ (by decide))).bind ?_
    refine (hlook _ (by decide) _ (by decide)).bind ?_
    refine (hlook _ (by decide) _ (by decide)).bind ?_
    exact (reads_advance 4 _ (by simp)).bind (reads_pure _ _)
  · refine (reads_noSpace (hstart _ (by decide))).bind ?_
    refine (hlook _ (by decide) _ (by decide)).bind ?_
    refine (hlook _ (by decide) _ (by decide)).bind ?_
    refine (hlook _ (by decide) _ (by decide)).bind ?_
    exact (reads_advance 5 _ (by simp)).bind (reads_pure _ _)

/-- The end of the loop of `parse_postfix`. -/
theorem reads_postfixTurn_last (hrest : StartsToken rest) (hends : EndsPostfix rest) :
    Reads (postfixTurn p base) rest (.inr base) rest := by
  refine (reads_noSpace hrest).bind ((reads_text rest).bind ?_)
  split
  next text => exact absurd rfl (hends _ _ rfl).2.2.1
  next text => exact absurd ⟨rfl, rfl⟩ (hends _ _ rfl).2.2.2.2
  next text => exact absurd rfl (hends _ _ rfl).2.2.2.1
  next => exact reads_pure _ _

/-- `parse_unary` in front of an operand without a prefix. -/
theorem parseUnary_agree (hsource : StartsToken source)
    (hsign : ∀ c, source.head? = some c → c ≠ '!' ∧ c ≠ '-') :
    AgreeOn source (parseUnary p) (testNull (parsePrimary p) >>= fun base =>
      parsePostfix p (base.getD .null)) := by
  refine (reads_noSpace hsource).agree.trans ((reads_peek source).agree.trans ?_)
  cases source with
  | nil => exact fun s _ => ⟨rfl, rfl⟩
  | cons c source =>
      have hc := hsign c rfl
      rw [List.head?_cons]
      split
      next heq => exact absurd (Option.some.inj heq) hc.1
      next heq => exact absurd (Option.some.inj heq) hc.2
      next => exact fun s _ => ⟨rfl, rfl⟩

theorem reads_unary_of_primary (hsource : StartsToken source)
    (hsign : ∀ c, source.head? = some c → c ≠ '!' ∧ c ≠ '-') {mid : List Char}
    (hprimary : Reads (parsePrimary p) source base mid)
    (hturns : ReadsTurns (postfixTurn p) base mid e rest) (he : e.isNull = false) :
    Reads (parseUnary p) source e rest := by
  refine (parseUnary_agree hsource hsign).reads (hprimary.testNull.bind ?_)
  refine hturns.whileLoop.bind ?_
  rw [he, if_neg Bool.false_ne_true]
  exact reads_pure _ _

/-- `parse_unary` where there is no operand. -/
theorem fails_unary_of_primary (hsource : StartsToken source)
    (hsign : ∀ c, source.head? = some c → c ≠ '!' ∧ c ≠ '-')
    (hprimary : Fails (parsePrimary p) source rest) (hrest : StartsToken rest)
    (hends : EndsPostfix rest) : Fails (parseUnary p) source rest := by
  refine (parseUnary_agree hsource hsign).fails (hprimary.testNull ?_)
  exact (ReadsTurns.last (reads_postfixTurn_last hrest hends)).whileLoop.fails (fails_null rest)

/-! ### Operators -/

/-- An operand behind which no operator of the level comes. -/
theorem reads_leftAssociative {operator : List Char → Option (Char × ℕ)} {operand : Parse ASTExpr}
    {mid : List Char} (hoperand : Reads operand source base mid) (hmid : StartsToken mid)
    (hturns : ReadsTurns (operatorTurn operator operand) base mid e rest) :
    Reads (parseLeftAssociative operator operand) source e rest :=
  hoperand.bind ((reads_noSpace hmid).bind hturns.whileLoop)

theorem readsTurns_last {operator : List Char → Option (Char × ℕ)} {operand : Parse ASTExpr}
    (hrest : operator rest = none) :
    ReadsTurns (operatorTurn operator operand) e rest e rest := by
  refine .last ((reads_text rest).bind ?_)
  rw [hrest]
  exact reads_pure _ _

/-- `parse_comparison` on an operand behind which no comparison comes. -/
theorem reads_comparison_last (hterm : Reads (parseTerm p) source e rest)
    (hrest : StartsToken rest) (hcomparison : comparisonOperator rest = none) :
    Reads (parseComparison p) source e rest := by
  refine hterm.bind ((reads_noSpace hrest).bind ((reads_text rest).bind ?_))
  rw [hcomparison]
  exact reads_pure _ _

/-- **What stands behind an expression** of a level, and does not continue it.  The levels are
those of `parse_logical_or` (0), `parse_logical_and`, `parse_comparison`, `parse_term`,
`parse_factor` (4) and `parse_unary`. -/
structure Stops (level : ℕ) (rest : List Char) : Prop where
  token : StartsToken rest
  ends : EndsPostfix rest
  factor : level ≤ 4 → factorOperator rest = none
  term : level ≤ 3 → termOperator rest = none
  comparison : level ≤ 2 → comparisonOperator rest = none
  logicalAnd : level ≤ 1 → andOperator rest = none
  logicalOr : level = 0 → orOperator rest = none

theorem stops_nil (level : ℕ) : Stops level [] :=
  ⟨startsToken_nil, endsPostfix_nil, fun _ => rfl, fun _ => rfl, fun _ => rfl, fun _ => rfl,
    fun _ => rfl⟩

/-- `parse_expression` on an operand. -/
theorem reads_logicalOr_of_unary (hunary : Reads (parseUnary p) source e rest)
    (hrest : Stops 0 rest) : Reads (parseLogicalOr p) source e rest := by
  have hfactor : Reads (parseFactor p) source e rest :=
    reads_leftAssociative hunary hrest.token (readsTurns_last (hrest.factor (by decide)))
  have hterm : Reads (parseTerm p) source e rest :=
    reads_leftAssociative hfactor hrest.token (readsTurns_last (hrest.term (by decide)))
  have hcomparison : Reads (parseComparison p) source e rest :=
    reads_comparison_last hterm hrest.token (hrest.comparison (by decide))
  have hand : Reads (parseLogicalAnd p) source e rest :=
    reads_leftAssociative hcomparison hrest.token (readsTurns_last (hrest.logicalAnd (by decide)))
  exact reads_leftAssociative hand hrest.token (readsTurns_last (hrest.logicalOr rfl))

/-- `parse_expression` where there is no operand. -/
theorem fails_logicalOr_of_unary (hunary : Fails (parseUnary p) source rest) :
    Fails (parseLogicalOr p) source rest := by
  have hfactor : Fails (parseFactor p) source rest := hunary.bind
  have hterm : Fails (parseTerm p) source rest := hfactor.bind
  have hcomparison : Fails (parseComparison p) source rest := hterm.bind
  have hand : Fails (parseLogicalAnd p) source rest := hcomparison.bind
  exact hand.bind

/-! ### Numbers -/

theorem numberLength_digits {digits : List Char} (hdigits : ∀ c ∈ digits, c.isDigit = true)
    (hrest : ∀ c, rest.head? = some c → c.isDigit = false ∧ c ≠ '.') (hasDot : Bool) :
    numberLength hasDot (digits ++ rest) = digits.length := by
  induction digits with
  | nil =>
      cases rest with
      | nil => rfl
      | cons c rest =>
          obtain ⟨hc, hdot⟩ := hrest c rfl
          simp [numberLength, hc, hdot]
  | cons c digits ih =>
      obtain ⟨hc, hdigits⟩ := List.forall_mem_cons.mp hdigits
      rw [List.cons_append, numberLength, if_pos hc, ih hdigits, List.length_cons]

theorem dot_not_mem_digits {digits : List Char} (hdigits : ∀ c ∈ digits, c.isDigit = true) :
    '.' ∉ digits :=
  fun hmem => absurd (hdigits _ hmem) (by decide)

section Numbers

variable (rest) {digits : List Char} (hne : digits ≠ []) (hdigits : ∀ c ∈ digits, c.isDigit = true)
  (hrest : ∀ c, rest.head? = some c → c.isDigit = false ∧ c ≠ '.')
include hne hdigits hrest

/-- `parse_number` on digits. -/
theorem reads_number (hlength : digits.length < maxTokenLen) :
    Reads (parseNumber p) (digits ++ rest) (.int (atoi p.conversions digits)) rest := by
  refine (reads_text _).bind ?_
  dsimp only
  rw [numberLength_digits hdigits hrest, List.take_left]
  refine (reads_advanceOver digits rest).bind ?_
  rw [List.isEmpty_eq_false_iff.mpr hne, if_neg Bool.false_ne_true, numberNode,
    if_neg (Nat.not_le.mpr hlength), if_neg (dot_not_mem_digits hdigits)]
  exact reads_pure _ _

/-- `parse_number` on too many digits. -/
theorem fails_number (hlength : maxTokenLen ≤ digits.length) :
    Fails (parseNumber p) (digits ++ rest) rest := by
  refine (reads_text _).fails ?_
  dsimp only
  rw [numberLength_digits hdigits hrest, List.take_left]
  refine (reads_advanceOver digits rest).fails ?_
  rw [List.isEmpty_eq_false_iff.mpr hne, if_neg Bool.false_ne_true, numberNode, if_pos hlength]
  exact fails_syntaxError _ _

end Numbers

/-! ### Whole expressions -/

section Extents

theorem identChar_ne {c d : Char} (hc : isIdentChar c = true) (hd : isIdentChar d = false) :
    c ≠ d := by
  rintro rfl
  exact Bool.false_ne_true (hd.symm.trans hc)

theorem isSpace_of_identChar {c : Char} (hc : isIdentChar c = true) : isSpace c = false := by
  simp [isSpace, identChar_ne hc (d := ' ') rfl, identChar_ne hc (d := '\t') rfl,
    identChar_ne hc (d := '\n') rfl, identChar_ne hc (d := '\r') rfl,
    identChar_ne hc (d := '\x0b') rfl, identChar_ne hc (d := '\x0c') rfl]

/-- A text without white space. -/
theorem trimSpace_eq_self {text : List Char} (h : ∀ c ∈ text, isSpace c = false) :
    trimSpace text = text := by
  have hdrop : ∀ text : List Char, (∀ c ∈ text, isSpace c = false) →
      text.dropWhile isSpace = text := by
    intro text h
    rw [List.dropWhile_eq_self_iff]
    exact fun hlt hspace => Bool.false_ne_true ((h _ (List.getElem_mem hlt)).symm.trans hspace)
  rw [trimSpace, hdrop _ fun c hc => h c (List.mem_reverse.mp hc), List.reverse_reverse, hdrop _ h]

/-- A character of a name changes none of the counters. -/
theorem codeStep_identChar {c : Char} (hc : isIdentChar c = true) (x : Extent) (text : List Char) :
    x.codeStep c text = some x := by
  simp [Extent.codeStep, identChar_ne hc (d := '"') rfl, identChar_ne hc (d := '{') rfl,
    identChar_ne hc (d := '(') rfl, identChar_ne hc (d := ')') rfl,
    identChar_ne hc (d := '}') rfl, identChar_ne hc (d := '[') rfl,
    identChar_ne hc (d := ']') rfl, identChar_ne hc (d := '\n') rfl,
    identChar_ne hc (d := ';') rfl, identChar_ne hc (d := ',') rfl]

/-- The extent of a text goes on behind a name. -/
theorem extentLength_append {name : List Char} (hname : ∀ c ∈ name, isIdentChar c = true)
    {x : Extent} (hx : x.inString = false) (rest : List Char) :
    extentLength x (name ++ rest) = name.length + extentLength x rest := by
  induction name with
  | nil => exact (Nat.zero_add _).symm
  | cons c name ih =>
      obtain ⟨hc, hname⟩ := List.forall_mem_cons.mp hname
      rw [List.cons_append, extentLength, hx, if_neg Bool.false_ne_true,
        codeStep_identChar hc]
      dsimp only
      rw [ih hname, List.length_cons]
      omega

/-- `parse_expression_str_as_ast` on a text that ends with its extent. -/
theorem reads_expressionStr (hextent : extentLength .start (source ++ rest) = source.length)
    (hwhole : Reads (parseWholeExpression p) (trimSpace source) e []) :
    Reads (parseExpressionStr p) (source ++ rest) e rest := by
  refine (reads_text _).bind ?_
  dsimp only
  rw [hextent, List.take_left]
  exact (reads_advanceOver source rest).bind (hwhole.onText rest)

/-- `parse_expression_str_as_ast` leaves what is behind the extent. -/
theorem final_expressionStr (p : Parser) (s : ParseState) :
    ((parseExpressionStr p).final s).rest = s.rest.drop (extentLength .start s.rest) :=
  rfl

theorem extentLength_le (x : Extent) (text : List Char) : extentLength x text ≤ text.length := by
  induction text generalizing x with
  | nil => exact le_rfl
  | cons c text ih =>
      rw [extentLength, List.length_cons]
      split
      · exact Nat.succ_le_succ (ih _)
      · split
        · exact Nat.succ_le_succ (ih _)
        · exact Nat.zero_le _

/-- The text of an expression is as long as its extent. -/
theorem extentLength_of_reads (h : Reads (parseExpressionStr p) (source ++ rest) e rest) :
    extentLength .start (source ++ rest) = source.length := by
  obtain ⟨-, hfinal⟩ := h ⟨source ++ rest, none, false, [], false⟩ rfl
  have hrest := final_expressionStr p ⟨source ++ rest, none, false, [], false⟩
  rw [hfinal] at hrest
  have hlength := congrArg List.length hrest
  have hle := extentLength_le .start (source ++ rest)
  simp only [List.length_drop, List.length_append] at hlength hle
  omega

theorem reads_wholeExpression (h : Reads (parseLogicalOr p) source e []) :
    Reads (parseWholeExpression p) source e [] :=
  h.bind ((reads_skipWhitespace []).bind ((reads_text []).bind (reads_pure _ _)))

end Extents

end BreadLang
