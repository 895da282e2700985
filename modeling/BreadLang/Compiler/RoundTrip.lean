import BreadLang.Compiler.Rendering
import BreadLang.Runtime.IntegerOps

/-!
# Parsing undoes printing

Every text of an expression is read as that expression.  The induction is on the length of the
text; for one text the levels are treated from the operands down to `parse_logical_or`.  A left
nested chain of operators is read by one loop, so what is proved of a left operand is that the
loop gets to it: its turns from there on are those that are left.
-/

namespace BreadLang

open Stateful Parse

/-! ### First characters -/

/-- The first character of an operand. -/
def isOperandStart (c : Char) : Bool :=
  isIdentStart c || c.isDigit || c == '(' || c == '['

/-- The first character of an expression. -/
def isExprStart (c : Char) : Bool :=
  isOperandStart c || c == '!' || c == '-'

theorem exprStart_ne {c d : Char} (hc : isExprStart c = true) (hd : isExprStart d = false) :
    c ≠ d := by
  rintro rfl
  exact Bool.false_ne_true (hd.symm.trans hc)

theorem isExprStart_of_operand {c : Char} (hc : isOperandStart c = true) :
    isExprStart c = true := by
  rw [isExprStart, hc, Bool.true_or, Bool.true_or]

theorem isOperandStart_of_ident {c : Char} (hc : isIdentStart c = true) :
    isOperandStart c = true := by
  rw [isOperandStart, hc, Bool.true_or, Bool.true_or, Bool.true_or]

theorem isOperandStart_of_digit {c : Char} (hc : c.isDigit = true) : isOperandStart c = true := by
  rw [isOperandStart, hc, Bool.or_true, Bool.true_or, Bool.true_or]

/-- A text starts with a character of an expression, or even of an operand. -/
def Heads (operand : Prop) (t : List Char) : Prop :=
  ∃ c u, t = c :: u ∧ isExprStart c = true ∧ (operand → isOperandStart c = true)

theorem heads_of_operand {operand : Prop} {c : Char} {u : List Char} (hc : isOperandStart c = true) :
    Heads operand (c :: u) :=
  ⟨c, u, rfl, isExprStart_of_operand hc, fun _ => hc⟩

theorem Heads.append {operand operand' : Prop} {t : List Char} (h : Heads operand t)
    (himp : operand' → operand) (u : List Char) : Heads operand' (t ++ u) := by
  obtain ⟨c, v, rfl, hc, hoperand⟩ := h
  exact ⟨c, v ++ u, rfl, hc, fun h => hoperand (himp h)⟩

theorem Heads.imp {operand : Prop} {t : List Char} (h : Heads operand t) : Heads False t := by
  obtain ⟨c, u, rfl, hc, -⟩ := h
  exact ⟨c, u, rfl, hc, False.elim⟩

theorem heads_identifier {operand : Prop} {name : List Char} (hname : IsIdentifier name) :
    Heads operand name := by
  cases name with
  | nil => exact absurd hname.start Bool.false_ne_true
  | cons c name => exact heads_of_operand (isOperandStart_of_ident hname.start)

theorem heads_bracketed {α : Type} {R : α → List Char → Prop} {opening closing : Char}
    {as : List α} {t : List Char} {operand : Prop} (hopening : isOperandStart opening = true)
    (h : Bracketed R opening closing as t) : Heads operand t := by
  cases h with
  | empty => exact heads_of_operand hopening
  | items => exact heads_of_operand hopening

theorem heads_digits {operand : Prop} {digits : List Char} (hne : digits ≠ [])
    (hdigits : ∀ c ∈ digits, c.isDigit = true) : Heads operand digits := by
  cases digits with
  | nil => exact absurd rfl hne
  | cons c digits => exact heads_of_operand (isOperandStart_of_digit (hdigits c List.mem_cons_self))

theorem operatorSyntax_level {op : Char} {opText : List Char} {level : ℕ}
    (h : operatorSyntax op = some (opText, level)) : level ≤ 4 := by
  unfold operatorSyntax at h
  split at h <;> cases h <;> decide

theorem level_binary {op : Char} {opText : List Char} {level : ℕ} {left right : ASTExpr}
    (h : operatorSyntax op = some (opText, level)) :
    (ASTExpr.binary op left right).level = level := by
  rw [ASTExpr.level, h]
  rfl

mutual

theorem Rendered.heads {strict : Bool} {k : ℕ} {e : ASTExpr} {t : List Char} :
    Rendered strict k e t → Heads (6 ≤ k) t
  | .plain hlevel h => by
      obtain ⟨c, u, rfl, hc, hoperand⟩ := h.heads
      exact ⟨c, u, rfl, hc, fun hk => hoperand (hk.trans hlevel)⟩
  | .parens _ _ _ _ => heads_of_operand rfl

theorem Body.heads {strict : Bool} {e : ASTExpr} {t : List Char} :
    Body strict e t → Heads (6 ≤ e.level) t
  | .nil => heads_of_operand rfl
  | .true => heads_of_operand rfl
  | .false => heads_of_operand rfl
  | .int hne hdigits _ _ _ => heads_digits hne hdigits
  | .var hname _ => heads_identifier hname
  | .unary hop _ _ => by
      obtain rfl | rfl := hop
      · exact ⟨_, _, rfl, rfl, fun h => absurd (show 6 ≤ 5 from h) (by decide)⟩
      · exact ⟨_, _, rfl, rfl, fun h => absurd (show 6 ≤ 5 from h) (by decide)⟩
  | .binary hop _ _ hl _ => by
      refine hl.heads.append (fun h => ?_) _
      rw [level_binary hop] at h
      exact absurd (h.trans (operatorSyntax_level hop)) (by decide)
  | .call hname _ _ _ => (heads_identifier hname).append id _
  | .index _ _ _ ht _ => ht.heads.append (fun _ => le_rfl) _
  | .member _ _ _ _ ht => ht.heads.append (fun _ => le_rfl) _
  | .methodCall _ _ _ _ _ ht _ => ht.heads.append (fun _ => le_rfl) _
  | .array h => heads_bracketed rfl h
  | .dict _ h => heads_bracketed rfl h
  | .emptyDict _ _ => heads_of_operand rfl

end

/-! ### What stands behind a text -/

/-- What stands behind the text of an expression of a level: the next token is `mid`, and it does
not continue the expression. -/
structure Behind (level : ℕ) (rest mid : List Char) : Prop where
  raw : rest.head?.any isIdentChar = false
  skip : skipSpaceAndComments false rest = mid
  stops : Stops level mid

section Behind

variable {space rest : List Char} {c : Char}

theorem skip_spaces (hspace : IsSpaces space) (hrest : StartsToken rest) :
    skipSpaceAndComments false (space ++ rest) = rest :=
  (skip_append hspace).trans hrest

theorem raw_spaces (hspace : IsSpaces space) (hrest : rest.head?.any isIdentChar = false) :
    (space ++ rest).head?.any isIdentChar = false := by
  cases space with
  | nil => exact hrest
  | cons d space =>
      have hd := hspace d List.mem_cons_self
      rw [List.cons_append, List.head?_cons, Option.any_some, Bool.eq_false_iff]
      exact fun hident => Bool.false_ne_true ((isSpace_of_identChar hident).symm.trans hd)

theorem startsToken_expr (hc : isExprStart c = true) : StartsToken (c :: rest) := by
  refine startsToken_cons ?_ (exprStart_ne hc rfl)
  simp [isSpace, exprStart_ne hc (d := ' ') rfl, exprStart_ne hc (d := '\t') rfl,
    exprStart_ne hc (d := '\n') rfl, exprStart_ne hc (d := '\r') rfl,
    exprStart_ne hc (d := '\x0b') rfl, exprStart_ne hc (d := '\x0c') rfl]

theorem Heads.startsToken {operand : Prop} {t : List Char} (h : Heads operand t) :
    StartsToken (t ++ rest) := by
  obtain ⟨c, u, rfl, hc, -⟩ := h
  exact startsToken_expr hc

/-- The characters behind an item in brackets. -/
def closers : List Char := [')', ']', ',', ':']

theorem stops_closer (hc : c ∈ closers) : Stops 0 (c :: rest) := by
  have hclosers : ∀ d ∈ closers, isSpace d = false ∧ d ≠ '/' ∧ d ≠ '{' ∧ d ≠ '(' ∧ d ≠ '[' ∧
      d ≠ '.' ∧ d ≠ '?' := by decide
  obtain ⟨hspace, hslash, hends⟩ := hclosers c hc
  refine ⟨startsToken_cons hspace hslash, ?_, fun _ => ?_, fun _ => ?_, fun _ => ?_, fun _ => ?_,
    fun _ => ?_⟩
  · rintro d u heq
    obtain ⟨rfl, rfl⟩ := List.cons.inj heq
    exact ⟨hends.1, hends.2.1, hends.2.2.1, hends.2.2.2.1, fun h => hends.2.2.2.2 h.1⟩
  all_goals
    simp only [closers, List.mem_cons, List.not_mem_nil, or_false] at hc
    obtain rfl | rfl | rfl | rfl := hc <;> rfl

theorem behind_closer (rest : List Char) (hspace : IsSpaces space) (hc : c ∈ closers) :
    Behind 0 (space ++ c :: rest) (c :: rest) := by
  have hclosers : ∀ d ∈ closers, isIdentChar d = false := by decide
  exact ⟨raw_spaces hspace (hclosers c hc), skip_spaces hspace (stops_closer hc).token,
    stops_closer hc⟩

end Behind

/-! ### Items in brackets -/

theorem Separated.heads {strict : Bool} {es : List ASTExpr} {ts : List Char}
    (h : Separated (Rendered strict 0) es ts) : Heads False ts := by
  cases h with
  | one h => exact h.heads.imp
  | more h => exact h.heads.append False.elim _

/-- **The calls of the parser** read the texts that are shorter than a bound. -/
structure ParsesShorter (p : Parser) (bound : ℕ) : Prop where
  expression : ∀ {e t space rest mid}, IsSpaces space → Rendered true 0 e t → t.length < bound →
    Behind 0 rest mid → Reads p.expression (space ++ (t ++ rest)) e mid
  unary : ∀ {e t space rest mid}, IsSpaces space → Rendered true 5 e t → t.length < bound →
    Behind 5 rest mid → Reads p.unary (space ++ (t ++ rest)) e mid

theorem isSpaces_nil : IsSpaces [] :=
  fun _ h => absurd h List.not_mem_nil

theorem isSpaces_blank : IsSpaces [' '] := by
  rw [IsSpaces]
  decide

section Items

variable {p : Parser} {bound : ℕ} (rest : List Char) (hp : ParsesShorter p bound)
include hp

theorem ParsesShorter.item {e : ASTExpr} {t mid rest : List Char} (h : Rendered true 0 e t)
    (hlt : t.length < bound) (hrest : Behind 0 rest mid) : Reads p.expression (t ++ rest) e mid :=
  hp.expression isSpaces_nil h hlt hrest

/-- A turn of the loop of `parse_argument_list` at an argument. -/
theorem reads_argumentTurn {e : ASTExpr} {t behind mid : List Char}
    {next : List ASTExpr ⊕ List ASTExpr} (h : Rendered true 0 e t) (hlt : t.length < bound)
    (hbehind : Behind 0 behind mid) (args : List ASTExpr)
    (hnext : Reads (peek >>= fun c => if c == some ',' then advance 1 >>= fun _ =>
      skipWhitespace >>= fun _ => pure (.inl (args ++ [e])) else pure (.inr (args ++ [e])))
      mid next rest) :
    Reads (argumentTurn p args) (t ++ behind) next rest := by
  refine (reads_peek _).bind ?_
  have hitem := hp.item h hlt hbehind
  obtain ⟨c, u, rfl, hc, -⟩ := h.heads
  rw [List.cons_append, List.head?_cons]
  split
  next heq => cases heq
  next heq => exact absurd (Option.some.inj heq) (exprStart_ne hc rfl)
  next => exact hitem.bind ((reads_noSpace hbehind.stops.token).bind hnext)

/-- The loop of `parse_argument_list`. -/
theorem readsTurns_arguments {es : List ASTExpr} {ts space : List Char}
    (h : Separated (Rendered true 0) es ts) (hlt : ts.length < bound) (hspace : IsSpaces space)
    (args : List ASTExpr) :
    ReadsTurns (argumentTurn p) args (ts ++ (space ++ ')' :: rest)) (args ++ es) (')' :: rest) := by
  induction h generalizing args with
  | one h =>
      refine .last (reads_argumentTurn _ hp h hlt (behind_closer _ hspace (by decide)) args ?_)
      exact (reads_peek _).bind (reads_pure _ _)
  | @more e es t ts space₁ space₂ h hspace₁ hspace₂ hs ih =>
      simp only [List.length_append, List.length_cons] at hlt
      have hhead : StartsToken (ts ++ (space ++ ')' :: rest)) := hs.heads.startsToken
      have hturn := reads_argumentTurn (ts ++ (space ++ ')' :: rest)) hp h (by omega)
        (behind_closer (space₂ ++ (ts ++ (space ++ ')' :: rest))) hspace₁
          (show ',' ∈ closers by decide)) args
        ((reads_peek _).bind ((reads_advance 1 _ (by simp)).bind
          ((reads_spaces hspace₂ hhead).bind (reads_pure _ _))))
      have hrest := ih (by omega) (args ++ [e])
      rw [List.append_assoc, List.singleton_append] at hrest
      simp only [List.append_assoc, List.cons_append]
      exact .next hturn (by simp only [List.length_append, List.length_cons]; omega) hrest

/-- `parse_argument_list`, behind the opening parenthesis. -/
theorem reads_argumentList {es : List ASTExpr} {t : List Char}
    (h : Bracketed (Rendered true 0) '(' ')' es t) (hle : t.length ≤ bound) :
    ∃ inner, t = '(' :: inner ∧ Reads (parseArgumentList p) (inner ++ rest) es rest := by
  cases h with
  | empty hspace =>
      refine ⟨_, rfl, ?_⟩
      rw [List.append_assoc]
      refine (reads_spaces hspace (startsToken_cons rfl (by decide))).bind ?_
      exact (reads_peek _).bind ((reads_advance 1 _ (by simp)).bind (reads_pure _ _))
  | @items _ ts space space' hspace hspace' hs =>
      refine ⟨_, rfl, ?_⟩
      simp only [List.length_cons, List.length_append] at hle
      have hturns := readsTurns_arguments rest hp hs (by omega) hspace' []
      obtain ⟨c, u, rfl, hc, -⟩ := hs.heads
      simp only [List.append_assoc, List.cons_append, List.nil_append] at hturns ⊢
      refine (reads_spaces hspace (startsToken_expr hc)).bind ((reads_peek _).bind ?_)
      rw [List.head?_cons, if_neg (by simpa using exprStart_ne hc rfl)]
      refine hturns.whileLoop.bind ((reads_noSpace (startsToken_cons rfl (by decide))).bind ?_)
      exact (reads_require ')' _ rest).bind (reads_pure _ _)

/-! #### Bracket literals -/

omit hp in
/-- A turn of the loop of `parse_array_or_dict` at an item. -/
theorem reads_bracketTurn {t behind mid : List Char} {items items' : BracketItems}
    {next : BracketItems ⊕ BracketItems} (hhead : Heads False t)
    (hitem : Reads (parseBracketItem p items) (t ++ behind) items' mid) (hmid : StartsToken mid)
    (hnext : Reads (peek >>= fun c => if c == some ',' then advance 1 >>= fun _ =>
      skipWhitespace >>= fun _ => pure (.inl items') else pure (.inr items')) mid next rest) :
    Reads (bracketTurn p items) (t ++ behind) next rest := by
  refine (reads_peek _).bind ?_
  obtain ⟨c, u, rfl, hc, -⟩ := hhead
  rw [List.cons_append, List.head?_cons]
  split
  next heq => cases heq
  next heq => exact absurd (Option.some.inj heq) (exprStart_ne hc rfl)
  next => exact hitem.bind ((reads_noSpace hmid).bind hnext)

/-- An item that is no pair. -/
theorem reads_elementItem {e : ASTExpr} {t behind mid : List Char} (h : Rendered true 0 e t)
    (hlt : t.length < bound) (hbehind : Behind 0 behind mid)
    (hcolon : mid.head? ≠ some ':') (elements : List ASTExpr) :
    Reads (parseBracketItem p ⟨false, elements, []⟩) (t ++ behind) ⟨false, elements ++ [e], []⟩
      mid := by
  refine (hp.item h hlt hbehind).bind ((reads_noSpace hbehind.stops.token).bind ?_)
  refine (reads_peek mid).bind ?_
  rw [Bool.false_or, if_neg (by simpa using hcolon)]
  exact reads_pure _ _

/-- A pair. -/
theorem reads_entryItem {entry : ASTExpr × ASTExpr} {t behind mid : List Char}
    (h : Paired (Rendered true 0) entry t) (hlt : t.length < bound) (hbehind : Behind 0 behind mid)
    (isDict : Bool) (entries : List (ASTExpr × ASTExpr)) :
    Reads (parseBracketItem p ⟨isDict, [], entries⟩) (t ++ behind) ⟨true, [], entries ++ [entry]⟩
      mid := by
  cases h with
  | @mk k v t t' space space' hk hspace hspace' hv =>
      simp only [List.length_append, List.length_cons] at hlt
      simp only [List.append_assoc, List.cons_append]
      have hcolon := behind_closer (space' ++ (t' ++ behind)) hspace
        (show ':' ∈ closers by decide)
      refine (hp.item hk (by omega) hcolon).bind ((reads_noSpace hcolon.stops.token).bind ?_)
      refine (reads_peek _).bind ?_
      rw [List.head?_cons, beq_self_eq_true, Bool.or_true, if_pos rfl]
      refine (reads_require ':' _ _).bind ?_
      exact (hp.expression hspace' hv (by omega) hbehind).bind (reads_pure _ _)

omit hp in
theorem Paired.heads {entry : ASTExpr × ASTExpr} {t : List Char}
    (h : Paired (Rendered true 0) entry t) : Heads False t := by
  cases h with
  | mk hk => exact hk.heads.append False.elim _

omit hp in
/-- The loop of `parse_array_or_dict`, where the items are of the kind `R` and `items` is what the
loop has collected of them. -/
theorem readsTurns_brackets {α : Type} {R : α → List Char → Prop} (items : List α → BracketItems)
    (hheads : ∀ a t, R a t → Heads False t)
    (hitem : ∀ as a t behind mid, R a t → t.length < bound → Behind 0 behind mid →
      mid.head? ≠ some ':' →
      Reads (parseBracketItem p (items as)) (t ++ behind) (items (as ++ [a])) mid)
    {as : List α} {ts space : List Char} (h : Separated R as ts) (hlt : ts.length < bound)
    (hspace : IsSpaces space) (before : List α) :
    ReadsTurns (bracketTurn p) (items before) (ts ++ (space ++ ']' :: rest))
      (items (before ++ as)) (']' :: rest) := by
  induction h generalizing before with
  | @one a t h =>
      have hbehind := behind_closer rest hspace (show ']' ∈ closers by decide)
      refine .last (reads_bracketTurn _ (hheads a t h)
        (hitem before a t _ _ h hlt hbehind (by simp)) hbehind.stops.token ?_)
      exact (reads_peek _).bind (reads_pure _ _)
  | @more a as t ts space₁ space₂ h hspace₁ hspace₂ hs ih =>
      simp only [List.length_append, List.length_cons] at hlt
      have hhead : StartsToken (ts ++ (space ++ ']' :: rest)) := by
        cases hs with
        | one h => exact (hheads _ _ h).startsToken
        | more h => exact ((hheads _ _ h).append id _).startsToken
      have hbehind := behind_closer (space₂ ++ (ts ++ (space ++ ']' :: rest))) hspace₁
        (show ',' ∈ closers by decide)
      have hturn := reads_bracketTurn (ts ++ (space ++ ']' :: rest)) (hheads a t h)
        (hitem before a t _ _ h (by omega) hbehind (by simp)) hbehind.stops.token
        ((reads_peek _).bind ((reads_advance 1 _ (by simp)).bind
          ((reads_spaces hspace₂ hhead).bind (reads_pure _ _))))
      have hrest := ih (by omega) (before ++ [a])
      rw [List.append_assoc, List.singleton_append] at hrest
      simp only [List.append_assoc, List.cons_append]
      exact .next hturn (by simp only [List.length_append, List.length_cons]; omega) hrest

omit hp in
/-- `parse_array_or_dict` on items. -/
theorem reads_bracketLiteral {items : BracketItems} {node : ASTExpr} {ts space space' : List Char}
    (hnode : node = if items.isDict then .dict items.entries else .arrayLiteral items.elements)
    (hhead : Heads False ts) (hspace : IsSpaces space)
    (hturns : ReadsTurns (bracketTurn p) ⟨false, [], []⟩ (ts ++ (space' ++ ']' :: rest)) items
      (']' :: rest)) :
    Reads (parseArrayOrDict p) ('[' :: (space ++ (ts ++ (space' ++ ']' :: rest)))) node rest := by
  refine (reads_noSpace (startsToken_cons rfl (by decide))).bind ((reads_expect '[' _).bind ?_)
  obtain ⟨c, u, rfl, hc, -⟩ := hhead
  refine (reads_spaces hspace (startsToken_expr hc)).bind ((reads_peek (c :: _)).bind ?_)
  rw [List.head?_cons]
  unfold parseBracketRest
  split
  next heq => exact absurd (Option.some.inj heq) (exprStart_ne hc rfl)
  next heq => exact absurd (Option.some.inj heq) (exprStart_ne hc rfl)
  next =>
    refine hturns.whileLoop.bind ((reads_noSpace (startsToken_cons rfl (by decide))).bind ?_)
    refine (reads_require ']' _ rest).bind ?_
    rw [hnode]
    split <;> exact reads_pure _ _

/-- An array literal. -/
theorem reads_arrayLiteral {es : List ASTExpr} {t : List Char}
    (h : Bracketed (Rendered true 0) '[' ']' es t) (hle : t.length ≤ bound) :
    Reads (parseArrayOrDict p) (t ++ rest) (.arrayLiteral es) rest := by
  cases h with
  | empty hspace =>
      simp only [List.append_assoc, List.cons_append, List.nil_append]
      refine (reads_noSpace (startsToken_cons rfl (by decide))).bind ((reads_expect '[' _).bind ?_)
      refine (reads_spaces hspace (startsToken_cons rfl (by decide))).bind ?_
      exact (reads_peek _).bind ((reads_advance 1 _ (by simp)).bind (reads_pure _ _))
  | @items _ ts space space' hspace hspace' hs =>
      simp only [List.length_cons, List.length_append] at hle
      have hturns := readsTurns_brackets rest (fun es => ⟨false, es, []⟩) (fun _ _ h => h.heads.imp)
        (fun es e t behind mid h hlt hbehind hcolon =>
          reads_elementItem hp h hlt hbehind hcolon es) hs (by omega) hspace' []
      have hread := reads_bracketLiteral rest rfl hs.heads hspace hturns
      simpa only [List.append_assoc, List.cons_append, List.nil_append, Bool.false_eq_true,
        if_false] using hread

/-- A dictionary literal with entries. -/
theorem reads_dictLiteral {entries : List (ASTExpr × ASTExpr)} {t : List Char} (hne : entries ≠ [])
    (h : Bracketed (Paired (Rendered true 0)) '[' ']' entries t) (hle : t.length ≤ bound) :
    Reads (parseArrayOrDict p) (t ++ rest) (.dict entries) rest := by
  cases h with
  | empty => exact absurd rfl hne
  | @items _ ts space space' hspace hspace' hs =>
      simp only [List.length_cons, List.length_append] at hle
      have hheads : ∀ (entry : ASTExpr × ASTExpr) t, Paired (Rendered true 0) entry t →
          Heads False t := fun _ _ h => h.heads
      have hturns := readsTurns_brackets rest (fun entries => ⟨!entries.isEmpty, [], entries⟩) hheads
        (fun before e t behind mid h hlt hbehind _ => by
          have hread := reads_entryItem hp h hlt hbehind (!before.isEmpty) before
          have hne : (!(before ++ [e]).isEmpty) = true := by simp
          rwa [← hne] at hread) hs (by omega) hspace' []
      have hread := reads_bracketLiteral rest rfl (by cases hs with
        | one h => exact h.heads
        | more h => exact h.heads.append id _) hspace hturns
      have hdict : (!entries.isEmpty) = true := by simpa using hne
      simpa only [List.append_assoc, List.cons_append, List.nil_append, hdict, if_true] using hread

omit hp in
theorem reads_emptyDict {space space' : List Char} (hspace : IsSpaces space)
    (hspace' : IsSpaces space') :
    Reads (parseArrayOrDict p) ('[' :: (space ++ ':' :: (space' ++ ']' :: rest))) (.dict []) rest := by
  refine (reads_noSpace (startsToken_cons rfl (by decide))).bind ((reads_expect '[' _).bind ?_)
  refine (reads_spaces hspace (startsToken_cons rfl (by decide))).bind ((reads_peek _).bind ?_)
  refine (reads_advance 1 _ (by simp)).bind ?_
  refine (reads_spaces hspace' (startsToken_cons rfl (by decide))).bind ?_
  exact (reads_require ']' _ rest).bind (reads_pure _ _)

end Items

/-! ### Operands -/

/-- **A text of an operand is read**: `parse_primary` and the loop of `parse_postfix` get to the
operand, with the turns `ReadsTurns` of the loop still to come. -/
def ReadsOperand (p : Parser) (e : ASTExpr) (t : List Char) : Prop :=
  ∀ rest mid b final, rest.head?.any isIdentChar = false →
    (∀ k, e = .int k → rest.head? ≠ some '.') → skipSpaceAndComments false rest = mid →
    (∀ c ∈ mid.head?, c ≠ '{' ∧ c ≠ '(') → ReadsTurns (postfixTurn p) e mid b final →
    ∃ base next, Reads (parsePrimary p) (t ++ rest) base next ∧
      ReadsTurns (postfixTurn p) base next b final

section Operands

variable {p : Parser} {e : ASTExpr} {t : List Char}

theorem skipsFirst_postfixTurn (base : ASTExpr) : SkipsFirst (postfixTurn p base) :=
  skipsFirst_skipWhitespace.bind

/-- An operand that `parse_primary` reads. -/
theorem readsOperand_of_primary
    (h : ∀ rest, rest.head?.any isIdentChar = false → (∀ k, e = .int k → rest.head? ≠ some '.') →
      Reads (parsePrimary p) (t ++ rest) e rest) : ReadsOperand p e t := by
  rintro rest mid b final hraw hdot rfl - hturns
  exact ⟨e, rest, h rest hraw hdot, readsTurns_of_skip skipsFirst_postfixTurn hturns⟩

theorem readsOperand_literalWord
    (hbase : t = "nil".toList ∧ e = .nil ∨ t = "true".toList ∧ e = .bool true ∨
      t = "false".toList ∧ e = .bool false) : ReadsOperand p e t :=
  readsOperand_of_primary fun rest hraw _ => reads_literalWord rest hraw hbase

theorem readsOperand_int {k : BreadInt} (hne : t ≠ []) (hdigits : ∀ c ∈ t, c.isDigit = true)
    (hlength : t.length < maxTokenLen) (hk : atoi p.conversions t = k) :
    ReadsOperand p (.int k) t := by
  refine readsOperand_of_primary fun rest hraw hdot => ?_
  have hrest : ∀ c, rest.head? = some c → c.isDigit = false ∧ c ≠ '.' := by
    intro c hc
    rw [hc, Option.any_some, isIdentChar, Char.isAlphanum, Bool.or_eq_false_iff,
      Bool.or_eq_false_iff] at hraw
    exact ⟨hraw.1.2, fun heq => hdot k rfl (heq ▸ hc)⟩
  have hnumber := reads_number (p := p) rest hne hdigits hrest hlength
  rw [hk] at hnumber
  obtain ⟨c, t, rfl⟩ := List.exists_cons_of_ne_nil hne
  exact (parsePrimary_digit (hdigits c List.mem_cons_self)).reads hnumber

theorem readsOperand_var (hname : IsIdentifier t) (hword : t ∉ reservedWords) :
    ReadsOperand p (.var t) t := by
  rintro rest mid b final hraw - rfl hends hturns
  simp only [reservedWords, List.mem_append, List.mem_cons, List.not_mem_nil, or_false,
    not_or] at hword
  exact ⟨_, _, reads_variable rest hname hraw hword.1 hword.2.1 hword.2.2
    (reads_skipWhitespace rest) hends, hturns⟩

theorem parsePrimary_bracket (source : List Char) :
    AgreeOn ('[' :: source) (parsePrimary p) (parseArrayOrDict p) := by
  refine (parsePrimary_agree (startsToken_cons rfl (by decide))
    (by rw [leadingWord]; exact of_decide_eq_false rfl)).trans ?_
  exact (reads_text _).agree.trans fun s _ => ⟨rfl, rfl⟩

/-- `parse_primary` on a literal in brackets. -/
theorem reads_primary_bracket {α : Type} {R : α → List Char → Prop} {as : List α} {rest : List Char}
    (h : Bracketed R '[' ']' as t) (hread : Reads (parseArrayOrDict p) (t ++ rest) e rest) :
    Reads (parsePrimary p) (t ++ rest) e rest := by
  cases h with
  | empty => exact (parsePrimary_bracket _).reads hread
  | items => exact (parsePrimary_bracket _).reads hread

theorem parsePrimary_paren (source : List Char) :
    AgreeOn ('(' :: source) (parsePrimary p) (advance 1 >>= fun _ => p.expression >>= fun inner =>
      skipWhitespace >>= fun _ => require ')' "Missing closing parenthesis" >>= fun _ =>
        pure inner) := by
  refine (parsePrimary_agree (startsToken_cons rfl (by decide))
    (by rw [leadingWord]; exact of_decide_eq_false rfl)).trans ?_
  exact (reads_text _).agree.trans fun s _ => ⟨rfl, rfl⟩

section Calls

variable {bound : ℕ} (hp : ParsesShorter p bound)
include hp

theorem readsOperand_parens {space space' : List Char} (hspace : IsSpaces space)
    (hspace' : IsSpaces space') (h : Rendered true 0 e t) (hlt : t.length < bound) :
    ReadsOperand p e ('(' :: (space ++ (t ++ (space' ++ [')'])))) := by
  refine readsOperand_of_primary fun rest _ _ => ?_
  simp only [List.append_assoc, List.cons_append, List.nil_append]
  have hbehind := behind_closer rest hspace' (show ')' ∈ closers by decide)
  refine (parsePrimary_paren _).reads ((reads_advance 1 _ (by simp)).bind ?_)
  refine (hp.expression hspace h hlt hbehind).bind ((reads_noSpace hbehind.stops.token).bind ?_)
  exact (reads_require ')' _ rest).bind (reads_pure _ _)

theorem readsOperand_call {name : List Char} {args : List ASTExpr} {space : List Char}
    (hname : IsIdentifier name) (hword : name ∉ reservedWords) (hspace : IsSpaces space)
    (h : Bracketed (Rendered true 0) '(' ')' args t) (hle : t.length ≤ bound) :
    ReadsOperand p (.call name args) (name ++ (space ++ t)) := by
  refine readsOperand_of_primary fun rest _ _ => ?_
  obtain ⟨inner, rfl, hargs⟩ := reads_argumentList rest hp h hle
  simp only [reservedWords, List.mem_append, List.mem_cons, List.not_mem_nil, or_false,
    not_or] at hword
  simp only [List.append_assoc, List.cons_append]
  have hraw : (space ++ '(' :: (inner ++ rest)).head?.any isIdentChar = false :=
    raw_spaces hspace rfl
  refine (parsePrimary_identifier _ hname hraw hword.1).reads ((reads_takeName _ hname hraw).bind ?_)
  rw [parseAfterName, beq_false_of_ne hword.2.1, if_neg Bool.false_ne_true,
    beq_false_of_ne hword.2.2, if_neg Bool.false_ne_true]
  refine (reads_spaces hspace (startsToken_cons rfl (by decide))).bind ((reads_peek _).bind ?_)
  exact (reads_advance 1 _ (by simp)).bind (hargs.bind (reads_pure _ _))

theorem readsOperand_index {target index : ASTExpr} {t' space space' space'' : List Char}
    (htarget : ReadsOperand p target t) (hspace : IsSpaces space) (hspace' : IsSpaces space')
    (hspace'' : IsSpaces space'') (hi : Rendered true 0 index t') (hlt : t'.length < bound) :
    ReadsOperand p (.index target index)
      (t ++ (space ++ '[' :: (space' ++ (t' ++ (space'' ++ [']']))))) := by
  rintro rest mid b final - - rfl - hturns
  simp only [List.append_assoc, List.cons_append, List.nil_append]
  have hbehind := behind_closer rest hspace'' (show ']' ∈ closers by decide)
  have hbracket : StartsToken ('[' :: (space' ++ (t' ++ (space'' ++ ']' :: rest)))) :=
    startsToken_cons rfl (by decide)
  have hturn : Reads (postfixTurn p target) ('[' :: (space' ++ (t' ++ (space'' ++ ']' :: rest))))
      (.inl (.index target index)) rest := by
    refine (reads_noSpace hbracket).bind ((reads_text _).bind ((reads_advance 1 _ (by simp)).bind ?_))
    refine (hp.expression hspace' hi hlt hbehind).bind ?_
    refine (reads_noSpace hbehind.stops.token).bind ?_
    exact (reads_require ']' _ rest).bind (reads_pure _ _)
  refine htarget _ _ b final (raw_spaces hspace rfl) (fun k _ => ?_)
    (skip_spaces hspace hbracket) (fun c hc => ?_)
    (.next hturn (by simp only [List.length_append, List.length_cons]; omega)
      (readsTurns_of_skip skipsFirst_postfixTurn hturns))
  · cases space with
    | nil => simp
    | cons c space =>
        intro heq
        exact absurd (hspace c List.mem_cons_self) (by rw [Option.some.inj heq]; decide)
  · obtain rfl := Option.some.inj hc
    decide

omit hp in
theorem reads_dotTurn {target e' : ASTExpr} {isOptionalChain : Bool} {source rest : List Char}
    (h : Reads (parseMember p target isOptionalChain) source e' rest) :
    Reads (postfixTurn p target) (dotText isOptionalChain ++ source) (.inl e') rest := by
  cases isOptionalChain with
  | false =>
      refine (reads_noSpace (startsToken_cons rfl (by decide))).bind ((reads_text _).bind ?_)
      exact (reads_advance 1 _ (by simp)).bind (h.bind (reads_pure _ _))
  | true =>
      refine (reads_noSpace (startsToken_cons rfl (by decide))).bind ((reads_text _).bind ?_)
      exact (reads_advance 2 _ (by simp)).bind (h.bind (reads_pure _ _))

omit hp in
/-- A member of an operand, where `parse_postfix` reads what is behind the dot. -/
theorem readsOperand_dot {target e' : ASTExpr} {isOptionalChain : Bool} {u space : List Char}
    (htarget : ReadsOperand p target t) (hspace : IsSpaces space)
    (hblank : isOptionalChain = false → ∀ k, target = .int k → space ≠ [])
    (hmember : ∀ rest mid, rest.head?.any isIdentChar = false →
      skipSpaceAndComments false rest = mid → (∀ c ∈ mid.head?, c ≠ '{' ∧ c ≠ '(') →
      ∃ next, Reads (parseMember p target isOptionalChain) (u ++ rest) e' next ∧
        next.length ≤ (u ++ rest).length ∧ skipSpaceAndComments false next = mid) :
    ReadsOperand p e' (t ++ (space ++ (dotText isOptionalChain ++ u))) := by
  rintro rest mid b final hraw - hmid hends hturns
  obtain ⟨next, hread, hle, rfl⟩ := hmember rest mid hraw hmid hends
  simp only [List.append_assoc]
  -- The first character behind the operand is a blank, or one of the dot.
  have hdot : ∀ v, ∃ d w, dotText isOptionalChain ++ v = d :: w ∧ (d = '.' ∨ d = '?') ∧
      (d = '.' → isOptionalChain = false) := by
    intro v
    cases isOptionalChain with
    | false => exact ⟨_, _, rfl, .inl rfl, fun _ => rfl⟩
    | true => exact ⟨_, _, rfl, .inr rfl, fun h => absurd h (by decide)⟩
  have hturn := reads_dotTurn hread
  obtain ⟨d, w, hdw, hd, hchain⟩ := hdot (u ++ rest)
  have hlength := congrArg List.length hdw
  rw [hdw] at hturn
  rw [hdw]
  have htoken : StartsToken (d :: w) := by
    obtain rfl | rfl := hd <;> exact startsToken_cons rfl (by decide)
  refine htarget _ _ b final (raw_spaces hspace ?_) (fun k hk => ?_) (skip_spaces hspace htoken)
    (fun c hc => ?_) (.next hturn ?_ (readsTurns_of_skip skipsFirst_postfixTurn hturns))
  · obtain rfl | rfl := hd <;> rfl
  · cases space with
    | nil =>
        intro heq
        exact hblank (hchain (Option.some.inj heq)) k hk rfl
    | cons c space =>
        intro heq
        exact absurd (hspace c List.mem_cons_self) (by rw [Option.some.inj heq]; decide)
  · obtain rfl := Option.some.inj hc
    obtain rfl | rfl := hd <;> decide
  · cases isOptionalChain <;> simp only [dotText, List.length_append, List.length_cons] at * <;>
      simp at hlength <;> omega

omit hp in
/-- `parse_member` on a name. -/
theorem reads_parseMember {target e' : ASTExpr} {name : List Char} {isOptionalChain : Bool}
    {space rest next : List Char} (hspace : IsSpaces space) (hname : IsIdentifier name)
    (hraw : rest.head?.any isIdentChar = false)
    (hnext : Reads (skipWhitespace >>= fun _ => peek >>= fun c =>
      if c == some '(' then advance 1 >>= fun _ => parseArgumentList p >>= fun args =>
        pure (.methodCall target name args isOptionalChain)
      else pure (.member target name isOptionalChain)) rest e' next) :
    Reads (parseMember p target isOptionalChain) (space ++ (name ++ rest)) e' next := by
  have htake := reads_takeName rest hname hraw
  obtain ⟨c, name, rfl⟩ : ∃ c u, name = c :: u := by
    cases name with
    | nil => exact absurd hname.start Bool.false_ne_true
    | cons c u => exact ⟨c, u, rfl⟩
  have hc : isIdentStart c = true := hname.start
  refine (reads_spaces hspace (startsToken_identStart hc)).bind ((reads_peek (c :: _)).bind ?_)
  rw [List.head?_cons, Option.any_some, hc, Bool.not_true, if_neg Bool.false_ne_true]
  exact htake.bind hnext

omit hp in
theorem readsOperand_member {target : ASTExpr} {name : List Char} {isOptionalChain : Bool}
    {space space' : List Char} (htarget : ReadsOperand p target t) (hspace : IsSpaces space)
    (hspace' : IsSpaces space')
    (hblank : isOptionalChain = false → ∀ k, target = .int k → space ≠ [])
    (hname : IsIdentifier name) :
    ReadsOperand p (.member target name isOptionalChain)
      (t ++ (space ++ (dotText isOptionalChain ++ (space' ++ name)))) := by
  refine readsOperand_dot htarget hspace hblank fun rest mid hraw hmid hends => ?_
  subst hmid
  refine ⟨_, ?_, ?_, skip_startsToken false rest⟩
  · rw [List.append_assoc]
    refine reads_parseMember hspace' hname hraw ((reads_skipWhitespace rest).bind ?_)
    refine (reads_peek _).bind ?_
    rw [if_neg fun h => (hends '(' (beq_iff_eq.mp h)).2 rfl]
    exact reads_pure _ _
  · have hle := skip_length_le false rest
    simp only [List.length_append]
    omega

theorem readsOperand_methodCall {target : ASTExpr} {name : List Char} {args : List ASTExpr}
    {isOptionalChain : Bool} {ts space space' space'' : List Char}
    (htarget : ReadsOperand p target t) (hspace : IsSpaces space) (hspace' : IsSpaces space')
    (hspace'' : IsSpaces space'')
    (hblank : isOptionalChain = false → ∀ k, target = .int k → space ≠ [])
    (hname : IsIdentifier name) (h : Bracketed (Rendered true 0) '(' ')' args ts)
    (hle : ts.length ≤ bound) :
    ReadsOperand p (.methodCall target name args isOptionalChain)
      (t ++ (space ++ (dotText isOptionalChain ++ (space' ++ (name ++ (space'' ++ ts)))))) := by
  refine readsOperand_dot htarget hspace hblank fun rest mid hraw hmid hends => ?_
  obtain ⟨inner, rfl, hargs⟩ := reads_argumentList rest hp h hle
  refine ⟨rest, ?_, by simp only [List.length_append]; omega, hmid⟩
  simp only [List.append_assoc, List.cons_append]
  refine reads_parseMember hspace' hname (raw_spaces hspace'' rfl) ?_
  refine (reads_spaces hspace'' (startsToken_cons rfl (by decide))).bind ((reads_peek _).bind ?_)
  exact (reads_advance 1 _ (by simp)).bind (hargs.bind (reads_pure _ _))

end Calls

end Operands

/-! ### Levels -/

/-- The functions of the parser, by the level of the expressions that they read. -/
def parseLevel (p : Parser) : ℕ → Parse ASTExpr
  | 0 => parseLogicalOr p
  | 1 => parseLogicalAnd p
  | 2 => parseComparison p
  | 3 => parseTerm p
  | 4 => parseFactor p
  | _ => parseUnary p

/-- **A text is read at a level.** -/
def ReadsAt (p : Parser) (level : ℕ) (e : ASTExpr) (t : List Char) : Prop :=
  ∀ rest mid, Behind level rest mid → Reads (parseLevel p level) (t ++ rest) e mid

/-- The operators of a level that is left associative. -/
def levelOperator : ℕ → List Char → Option (Char × ℕ)
  | 0 => orOperator
  | 1 => andOperator
  | 3 => termOperator
  | 4 => factorOperator
  | _ => fun _ => none

/-- The levels of the left associative operators. -/
def chainLevels : List ℕ := [0, 1, 3, 4]

/-- **A text is read at the start of a chain**: the operand of the level is reached, with the
turns of the loop over the operators still to come. -/
def ReadsChain (p : Parser) (level : ℕ) (e : ASTExpr) (t : List Char) : Prop :=
  ∀ rest mid b final, Behind (level + 1) rest mid →
    ReadsTurns (operatorTurn (levelOperator level) (parseLevel p (level + 1))) e mid b final →
    ∃ base next, Reads (parseLevel p (level + 1)) (t ++ rest) base next ∧ StartsToken next ∧
      ReadsTurns (operatorTurn (levelOperator level) (parseLevel p (level + 1))) base next b final

section Levels

variable {p : Parser} {e : ASTExpr} {t : List Char} {level : ℕ}

theorem parseLevel_chain (hlevel : level ∈ chainLevels) :
    parseLevel p level = parseLeftAssociative (levelOperator level) (parseLevel p (level + 1)) := by
  simp only [chainLevels, List.mem_cons, List.not_mem_nil, or_false] at hlevel
  obtain rfl | rfl | rfl | rfl := hlevel <;> rfl

theorem Stops.mono {level' : ℕ} {rest : List Char} (h : Stops level rest) (hle : level ≤ level') :
    Stops level' rest :=
  ⟨h.token, h.ends, fun hlevel => h.factor (hle.trans hlevel), fun hlevel => h.term (hle.trans hlevel),
    fun hlevel => h.comparison (hle.trans hlevel), fun hlevel => h.logicalAnd (hle.trans hlevel),
    fun hlevel => h.logicalOr (by omega)⟩

theorem Behind.mono {level' : ℕ} {rest mid : List Char} (h : Behind level rest mid)
    (hle : level ≤ level') : Behind level' rest mid :=
  ⟨h.raw, h.skip, h.stops.mono hle⟩

theorem levelOperator_none {rest : List Char} (h : Stops level rest) :
    levelOperator level rest = none := by
  unfold levelOperator
  split
  · exact h.logicalOr rfl
  · exact h.logicalAnd le_rfl
  · exact h.term le_rfl
  · exact h.factor le_rfl
  · rfl

theorem skipsFirst_parseUnary : SkipsFirst (parseUnary p) :=
  skipsFirst_skipWhitespace.bind

theorem skipsFirst_parseFactor : SkipsFirst (parseFactor p) :=
  skipsFirst_parseUnary.bind

theorem skipsFirst_parseTerm : SkipsFirst (parseTerm p) :=
  skipsFirst_parseFactor.bind

theorem skipsFirst_parseComparison : SkipsFirst (parseComparison p) :=
  skipsFirst_parseTerm.bind

theorem skipsFirst_parseLogicalAnd : SkipsFirst (parseLogicalAnd p) :=
  skipsFirst_parseComparison.bind

theorem skipsFirst_parseLogicalOr : SkipsFirst (parseLogicalOr p) :=
  skipsFirst_parseLogicalAnd.bind

theorem skipsFirst_parseLevel : SkipsFirst (parseLevel p level) := by
  unfold parseLevel
  split
  · exact skipsFirst_parseLogicalOr
  · exact skipsFirst_parseLogicalAnd
  · exact skipsFirst_parseComparison
  · exact skipsFirst_parseTerm
  · exact skipsFirst_parseFactor
  · exact skipsFirst_parseUnary

/-- An operand of the level is a chain without operators. -/
theorem ReadsAt.chain (h : ReadsAt p (level + 1) e t) : ReadsChain p level e t :=
  fun rest mid _ _ hbehind hturns => ⟨e, mid, h rest mid hbehind, hbehind.stops.token, hturns⟩

/-- A chain behind which no operator of the level comes. -/
theorem ReadsChain.readsAt (hlevel : level ∈ chainLevels) (h : ReadsChain p level e t) :
    ReadsAt p level e t := by
  intro rest mid hbehind
  obtain ⟨base, next, hread, hnext, hturns⟩ := h rest mid e mid (hbehind.mono (Nat.le_succ _))
    (readsTurns_last (levelOperator_none hbehind.stops))
  rw [parseLevel_chain hlevel]
  exact reads_leftAssociative hread hnext hturns

/-- The characters that do not come behind an operator. -/
theorem head_behind_operator {operand : Prop} {space : List Char} (rest : List Char) (hspace : IsSpaces space)
    (h : Heads operand t) {d : Char} (hd : d = '/' ∨ d = '=') :
    (space ++ (t ++ rest)).head? ≠ some d := by
  intro heq
  cases space with
  | nil =>
      obtain ⟨c, u, rfl, hc, -⟩ := h
      obtain rfl := Option.some.inj heq
      obtain rfl | rfl := hd <;> exact absurd hc (by decide)
  | cons c space =>
      obtain rfl := Option.some.inj heq
      have hc := hspace c List.mem_cons_self
      obtain rfl | rfl := hd <;> exact absurd hc (by decide)

/-- What an operator looks like to the operand on its left. -/
theorem stops_operator {op : Char} {opText rest : List Char}
    (hop : operatorSyntax op = some (opText, level)) (hslash : rest.head? ≠ some '/') :
    Stops (level + 1) (opText ++ rest) := by
  have hends : ∀ c u, c ∉ ['{', '(', '[', '.', '?'] → EndsPostfix (c :: u) := by
    rintro c u hc d v heq
    obtain ⟨rfl, rfl⟩ := List.cons.inj heq
    simp only [List.mem_cons, List.not_mem_nil, or_false, not_or] at hc
    exact ⟨hc.1, hc.2.1, hc.2.2.1, hc.2.2.2.1, fun h => hc.2.2.2.2 h.1⟩
  have hdivide : StartsToken ('/' :: rest) := by
    rw [StartsToken, skipSpaceAndComments]
    simp [isSpace, hslash]
  unfold operatorSyntax at hop
  split at hop <;> cases hop
  all_goals
    refine ⟨?_, hends _ _ (by decide), ?_, ?_, ?_, ?_, ?_⟩
    · first
        | exact hdivide
        | exact startsToken_cons rfl (by decide)
    all_goals
      first
        | exact fun _ => rfl
        | exact fun h => absurd h (by decide)

theorem levelOperator_operator {op : Char} {opText rest : List Char}
    (hop : operatorSyntax op = some (opText, level)) (hlevel : level ∈ chainLevels) :
    levelOperator level (opText ++ rest) = some (op, opText.length) := by
  unfold operatorSyntax at hop
  split at hop <;> cases hop <;> first | rfl | exact absurd hlevel (by decide)

theorem comparisonOperator_operator {op : Char} {opText rest : List Char}
    (hop : operatorSyntax op = some (opText, 2)) (hequals : rest.head? ≠ some '=') :
    comparisonOperator (opText ++ rest) = some (op, opText.length) := by
  have hplain : ∀ c : Char, c = '<' ∨ c = '>' → comparisonOperator (c :: rest) = some (c, 1) := by
    rintro c (rfl | rfl)
    · unfold comparisonOperator
      split <;> simp_all
    · unfold comparisonOperator
      split <;> simp_all
  unfold operatorSyntax at hop
  split at hop <;> cases hop
  all_goals
    first
      | rfl
      | exact hplain _ (.inl rfl)
      | exact hplain _ (.inr rfl)

section Operators

variable {op : Char} {opText t' space space' : List Char} {left right : ASTExpr}
  (hop : operatorSyntax op = some (opText, level)) (hspace : IsSpaces space)
  (hspace' : IsSpaces space') (hheads : Heads False t')
include hop hspace hspace' hheads

/-- Behind the left operand comes the operator. -/
theorem behind_operator (rest : List Char) :
    Behind (level + 1) (space ++ (opText ++ (space' ++ (t' ++ rest))))
      (opText ++ (space' ++ (t' ++ rest))) := by
  have hstops := stops_operator hop (head_behind_operator rest hspace' hheads (.inl rfl))
  refine ⟨raw_spaces hspace ?_, skip_spaces hspace hstops.token, hstops⟩
  unfold operatorSyntax at hop
  split at hop <;> cases hop <;> rfl

omit hop hspace in
/-- An operand of a higher level behind an operator. -/
theorem reads_rightOperand {k : ℕ} (hr : ReadsAt p k right t') {rest mid : List Char}
    (hbehind : Behind k rest mid) :
    Reads (parseLevel p k) (space' ++ (t' ++ rest)) right mid := by
  refine skipsFirst_parseLevel.reads ?_
  rw [skip_spaces hspace' hheads.startsToken]
  exact hr rest mid hbehind

/-- An operator of a chain. -/
theorem readsChain_binary (hlevel : level ∈ chainLevels) (hl : ReadsChain p level left t)
    (hr : ReadsAt p (level + 1) right t') :
    ReadsChain p level (.binary op left right) (t ++ (space ++ (opText ++ (space' ++ t')))) := by
  intro rest mid b final hbehind hturns
  simp only [List.append_assoc]
  refine hl _ _ b final (behind_operator hop hspace hspace' hheads rest) (.next ?_ ?_ hturns)
  · refine (reads_text _).bind ?_
    rw [levelOperator_operator hop hlevel]
    refine (reads_advanceOver opText _).bind ?_
    refine (reads_rightOperand hspace' hheads hr hbehind).bind ?_
    exact (reads_noSpace hbehind.stops.token).bind (reads_pure _ _)
  · have hle := skip_length_le false rest
    rw [hbehind.skip] at hle
    have hpos : 0 < t'.length := by
      obtain ⟨c, u, rfl, -⟩ := hheads
      exact Nat.succ_pos _
    simp only [List.length_append]
    omega

/-- A comparison. -/
theorem readsAt_comparison (hlevel : level = 2) (hl : ReadsAt p 3 left t) (hr : ReadsAt p 3 right t') :
    ReadsAt p 2 (.binary op left right) (t ++ (space ++ (opText ++ (space' ++ t')))) := by
  subst hlevel
  intro rest mid hbehind
  simp only [List.append_assoc]
  have hoperator := behind_operator hop hspace hspace' hheads rest
  have hright := reads_rightOperand hspace' hheads hr (hbehind.mono (Nat.le_succ 2))
  refine (hl _ _ hoperator).bind ((reads_noSpace hoperator.stops.token).bind ?_)
  refine (reads_text _).bind ?_
  rw [comparisonOperator_operator hop (head_behind_operator rest hspace' hheads (.inr rfl))]
  exact (reads_advanceOver opText _).bind (hright.bind (reads_pure _ _))

end Operators

/-! ### From a level to the lower ones -/

/-- What is behind an expression does not go on with a dot. -/
theorem Behind.head?_ne_dot {rest mid : List Char} (h : Behind level rest mid) :
    rest.head? ≠ some '.' := by
  intro heq
  cases rest with
  | nil => cases heq
  | cons c rest =>
      obtain rfl := Option.some.inj heq
      have hmid : '.' :: rest = mid := (startsToken_cons rfl (by decide)).symm.trans h.skip
      exact (h.stops.ends _ _ hmid.symm).2.2.2.1 rfl

/-- An operand, at the level of the prefix operators. -/
theorem readsAt_of_operand (h : ReadsOperand p e t) (hheads : Heads True t)
    (hnull : e.isNull = false) : ReadsAt p 5 e t := by
  intro rest mid hbehind
  have hends := hbehind.stops.ends
  obtain ⟨base, next, hprimary, hturns⟩ := h rest mid e mid hbehind.raw
    (fun _ _ => hbehind.head?_ne_dot) hbehind.skip
    (fun c hc => by
      obtain ⟨u, rfl⟩ : ∃ u, mid = c :: u := by
        cases mid with
        | nil => cases hc
        | cons d u => exact ⟨u, by rw [Option.some.inj hc]⟩
      exact ⟨(hends c u rfl).1, (hends c u rfl).2.1⟩)
    (.last (reads_postfixTurn_last hbehind.stops.token hends))
  refine reads_unary_of_primary hheads.startsToken (fun c hc => ?_) hprimary hturns hnull
  obtain ⟨d, u, rfl, -, hd⟩ := hheads
  obtain rfl := Option.some.inj hc
  have hoperand := hd trivial
  constructor <;> rintro rfl <;> exact absurd hoperand (by decide)

/-- A prefix operator and its operand. -/
theorem readsAt_unary {bound : ℕ} (hp : ParsesShorter p bound) {op : Char} {space : List Char}
    (hop : op = '!' ∨ op = '-') (hspace : IsSpaces space) (h : Rendered true 5 e t)
    (hlt : t.length < bound) : ReadsAt p 5 (.unary op e) (op :: (space ++ t)) := by
  intro rest mid hbehind
  have hread := hp.unary hspace h hlt hbehind
  rw [List.cons_append, List.append_assoc]
  obtain rfl | rfl := hop
  · refine (reads_noSpace (startsToken_cons rfl (by decide))).bind ((reads_peek _).bind ?_)
    exact (reads_advance 1 _ (by simp)).bind (hread.bind (reads_pure _ _))
  · refine (reads_noSpace (startsToken_cons rfl (by decide))).bind ((reads_peek _).bind ?_)
    exact (reads_advance 1 _ (by simp)).bind (hread.bind (reads_pure _ _))

/-- An expression of a level is one of the level below. -/
theorem ReadsAt.pred (hlevel : level ≤ 4) (h : ReadsAt p (level + 1) e t) :
    ReadsAt p level e t := by
  by_cases hchain : level ∈ chainLevels
  · exact h.chain.readsAt hchain
  · have htwo : level = 2 := by
      simp only [chainLevels, List.mem_cons, List.not_mem_nil, or_false] at hchain
      omega
    subst htwo
    intro rest mid hbehind
    exact reads_comparison_last (h rest mid (hbehind.mono (Nat.le_succ 2))) hbehind.stops.token
      (hbehind.stops.comparison le_rfl)

theorem ReadsAt.mono {level' : ℕ} (hle : level' ≤ level) (hlevel : level ≤ 5)
    (h : ReadsAt p level e t) : ReadsAt p level' e t := by
  induction hle with
  | refl => exact h
  | @step level _ ih => exact ih (Nat.le_of_succ_le hlevel) (h.pred (by omega))

/-- **A text is read at all the levels up to its own.** -/
structure ReadsFrom (p : Parser) (level : ℕ) (e : ASTExpr) (t : List Char) : Prop where
  operand : 6 ≤ level → ReadsOperand p e t
  chain : ∀ level' ∈ chainLevels, level' ≤ level → ReadsChain p level' e t
  whole : ∀ level' ≤ 5, level' ≤ level → ReadsAt p level' e t

theorem ReadsFrom.mono {level' : ℕ} (hle : level' ≤ level) (h : ReadsFrom p level e t) :
    ReadsFrom p level' e t :=
  ⟨fun hlevel => h.operand (hlevel.trans hle), fun k hk hlevel => h.chain k hk (hlevel.trans hle),
    fun k hk hlevel => h.whole k hk (hlevel.trans hle)⟩

theorem chainLevels_le (hlevel : level ∈ chainLevels) : level ≤ 4 := by
  have hle : ∀ k ∈ chainLevels, k ≤ 4 := by decide
  exact hle level hlevel

theorem readsFrom_of_operand (h : ReadsOperand p e t) (hheads : Heads True t)
    (hnull : e.isNull = false) : ReadsFrom p 6 e t := by
  have hat := readsAt_of_operand h hheads hnull
  refine ⟨fun _ => h, fun k hk _ => ?_, fun k hk _ => hat.mono hk le_rfl⟩
  exact (hat.mono (Nat.succ_le_succ (chainLevels_le hk)) le_rfl).chain

/-- An expression that is no operand, at a level that is not left associative. -/
theorem ReadsAt.readsFrom (hlevel : level = 5 ∨ level = 2) (h : ReadsAt p level e t) :
    ReadsFrom p level e t := by
  refine ⟨fun hle => by omega, fun k hk hle => ?_, fun k hk hle => h.mono hle (by omega)⟩
  have hne : k + 1 ≤ level := by
    have hle4 := chainLevels_le hk
    have hne2 : k ≠ 2 := by rintro rfl; exact absurd hk (by decide)
    omega
  exact (h.mono hne (by omega)).chain

/-- An expression with an operator that is left associative. -/
theorem ReadsChain.readsFrom (hlevel : level ∈ chainLevels) (h : ReadsChain p level e t) :
    ReadsFrom p level e t := by
  have hle4 := chainLevels_le hlevel
  have hat := h.readsAt hlevel
  refine ⟨fun hle => by omega, fun k hk hle => ?_, fun k hk hle => hat.mono hle (by omega)⟩
  obtain rfl | hlt := Nat.eq_or_lt_of_le hle
  · exact h
  · exact (hat.mono hlt (by omega)).chain

end Levels

/-! ### All texts -/

theorem atoi_digits (conversions : Conversions) {k : BreadInt} {digits : List Char}
    (hvalue : k.val = digitsValue digits) (hbound : digitsValue digits < 2 ^ 31) :
    atoi conversions digits = k := by
  have hle : (digitsValue digits : ℤ) ≤ intMax := by
    rw [intMax]
    omega
  have hwrap := BreadInt.val_wrap k.isInt64
  rw [atoi, if_pos hle, ← hvalue]
  obtain ⟨val, hval⟩ := k
  rw [BreadInt.mk.injEq]
  exact hwrap

theorem Body.isNull {strict : Bool} {e : ASTExpr} {t : List Char} (h : Body strict e t) :
    e.isNull = Bool.false := by
  cases h <;> rfl

section Texts

variable {p : Parser} {bound : ℕ} (hp : ParsesShorter p bound)
include hp

mutual

/-- Every text of an expression is read at its levels. -/
theorem Rendered.readsFrom {k : ℕ} {e : ASTExpr} {t : List Char} :
    Rendered true k e t → k ≤ 6 → t.length ≤ bound → ReadsFrom p k e t
  | .plain hlevel h, _, hle => (h.readsFrom hle).mono hlevel
  | .parens _ hspace hspace' h, hk, hle => by
      simp only [List.length_append, List.length_cons, List.length_nil] at hle
      have hrendered := Rendered.plain (Nat.zero_le _) h
      exact (readsFrom_of_operand (readsOperand_parens hp hspace hspace' hrendered (by omega))
        (heads_of_operand rfl) h.isNull).mono hk

theorem Body.readsFrom {e : ASTExpr} {t : List Char} :
    Body true e t → t.length ≤ bound → ReadsFrom p e.level e t
  | .nil, _ => readsFrom_of_operand (readsOperand_literalWord (.inl ⟨rfl, rfl⟩))
      (heads_of_operand rfl) rfl
  | .true, _ => readsFrom_of_operand (readsOperand_literalWord (.inr (.inl ⟨rfl, rfl⟩)))
      (heads_of_operand rfl) rfl
  | .false, _ => readsFrom_of_operand (readsOperand_literalWord (.inr (.inr ⟨rfl, rfl⟩)))
      (heads_of_operand rfl) rfl
  | .int hne hdigits hlength hvalue hbound, _ =>
      readsFrom_of_operand (readsOperand_int hne hdigits hlength (atoi_digits _ hvalue hbound))
        (heads_digits hne hdigits) rfl
  | .var hname hword, _ =>
      readsFrom_of_operand (readsOperand_var hname hword) (heads_identifier hname) rfl
  | .unary hop hspace h, hle => by
      simp only [List.length_append, List.length_cons] at hle
      exact (readsAt_unary hp hop hspace h (by omega)).readsFrom (.inl rfl)
  | @Body.binary _ op left right opText t t' space space' level hop hspace hspace' hl hr, hle => by
      simp only [List.length_append] at hle
      have hlevel := operatorSyntax_level hop
      have hright := hr.readsFrom (by omega) (by omega)
      have hleft := hl.readsFrom (by rw [leftLevel]; split <;> omega) (by omega)
      have hrightAt := hright.whole (level + 1) (by omega) le_rfl
      rw [level_binary hop]
      by_cases hchain : level ∈ chainLevels
      · have hne : level ≠ 2 := by rintro rfl; exact absurd hchain (by decide)
        rw [leftLevel, if_neg hne] at hleft
        exact (readsChain_binary hop hspace hspace' hr.heads.imp hchain
          (hleft.chain level hchain le_rfl) hrightAt).readsFrom hchain
      · have htwo : level = 2 := by
          simp only [chainLevels, List.mem_cons, List.not_mem_nil, or_false] at hchain
          omega
        subst htwo
        exact (readsAt_comparison hop hspace hspace' hr.heads.imp rfl
          (hleft.whole 3 (by decide) le_rfl) hrightAt).readsFrom (.inr rfl)
  | .call hname hword hspace h, hle => by
      simp only [List.length_append] at hle
      exact readsFrom_of_operand (readsOperand_call hp hname hword hspace h (by omega))
        ((heads_identifier hname).append id _) rfl
  | .index hspace hspace' hspace'' ht hi, hle => by
      simp only [List.length_append, List.length_cons] at hle
      have htarget := (ht.readsFrom le_rfl (by omega)).operand le_rfl
      exact readsFrom_of_operand (readsOperand_index hp htarget hspace hspace' hspace'' hi (by omega))
        (ht.heads.append (fun _ => le_rfl) _) rfl
  | .member hspace hspace' hblank hname ht, hle => by
      simp only [List.length_append] at hle
      have htarget := (ht.readsFrom le_rfl (by omega)).operand le_rfl
      exact readsFrom_of_operand (readsOperand_member htarget hspace hspace' (hblank rfl) hname)
        (ht.heads.append (fun _ => le_rfl) _) rfl
  | .methodCall hspace hspace' hspace'' hblank hname ht h, hle => by
      simp only [List.length_append] at hle
      have htarget := (ht.readsFrom le_rfl (by omega)).operand le_rfl
      exact readsFrom_of_operand (readsOperand_methodCall hp htarget hspace hspace' hspace''
        (hblank rfl) hname h (by omega)) (ht.heads.append (fun _ => le_rfl) _) rfl
  | .array h, hle =>
      readsFrom_of_operand (readsOperand_of_primary fun rest _ _ =>
        reads_primary_bracket h (reads_arrayLiteral rest hp h hle)) (heads_bracketed rfl h) rfl
  | .dict hne h, hle =>
      readsFrom_of_operand (readsOperand_of_primary fun rest _ _ =>
        reads_primary_bracket h (reads_dictLiteral rest hp hne h hle)) (heads_bracketed rfl h) rfl
  | .emptyDict hspace hspace', _ =>
      readsFrom_of_operand (readsOperand_of_primary fun rest _ _ => by
        simp only [List.append_assoc, List.cons_append, List.nil_append]
        exact (parsePrimary_bracket _).reads (reads_emptyDict rest hspace hspace'))
        (heads_of_operand rfl) rfl

end

end Texts

/-! ### Printing and parsing -/

/-- **The parser reads the texts that are shorter than its stack.** -/
theorem parsesShorter (conversions : Conversions) :
    ∀ n, ParsesShorter (parser conversions n) n
  | 0 => ⟨fun _ _ hlt => absurd hlt (Nat.not_lt_zero _),
      fun _ _ hlt => absurd hlt (Nat.not_lt_zero _)⟩
  | n + 1 => by
      have ih := parsesShorter conversions n
      refine ⟨fun hspace h hlt hbehind => skipsFirst_parseLogicalOr.reads ?_,
        fun hspace h hlt hbehind => skipsFirst_parseUnary.reads ?_⟩
      · rw [skip_spaces hspace h.heads.startsToken]
        exact (h.readsFrom ih (by decide) (Nat.le_of_lt_succ hlt)).whole 0 (by decide) le_rfl _ _
          hbehind
      · rw [skip_spaces hspace h.heads.startsToken]
        exact (h.readsFrom ih (by decide) (Nat.le_of_lt_succ hlt)).whole 5 le_rfl le_rfl _ _ hbehind

/-- White space, and then the end of the text. -/
theorem behind_end {space : List Char} (hspace : IsSpaces space) (level : ℕ) :
    Behind level space [] := by
  have hraw : (space ++ []).head?.any isIdentChar = false := raw_spaces hspace rfl
  have hskip := skip_spaces hspace startsToken_nil
  rw [List.append_nil] at hraw hskip
  exact ⟨hraw, hskip, stops_nil level⟩

theorem exists_rendered_of_body {strict : Bool} {e : ASTExpr} {t : List Char}
    (h : Body strict e t) (level : ℕ) : ∃ t', Rendered strict level e t' := by
  by_cases hlevel : level ≤ e.level
  · exact ⟨t, .plain hlevel h⟩
  · exact ⟨_, .parens (Nat.not_le.mp hlevel) isSpaces_nil isSpaces_nil h⟩

theorem exists_separated {α : Type} {R : α → List Char → Prop} {a : α} {as : List α}
    (h : ∀ b ∈ a :: as, ∃ t, R b t) : ∃ ts, Separated R (a :: as) ts := by
  induction as generalizing a with
  | nil =>
      obtain ⟨t, ht⟩ := h a List.mem_cons_self
      exact ⟨t, .one ht⟩
  | cons b as ih =>
      obtain ⟨t, ht⟩ := h a List.mem_cons_self
      obtain ⟨ts, hs⟩ := ih fun c hc => h c (List.mem_cons_of_mem a hc)
      exact ⟨_, .more ht isSpaces_nil isSpaces_nil hs⟩

theorem exists_bracketed {α : Type} {R : α → List Char → Prop} {opening closing : Char}
    {as : List α} (h : ∀ a ∈ as, ∃ t, R a t) : ∃ t, Bracketed R opening closing as t := by
  cases as with
  | nil => exact ⟨_, .empty isSpaces_nil⟩
  | cons a as =>
      obtain ⟨ts, hs⟩ := exists_separated h
      exact ⟨_, .items isSpaces_nil isSpaces_nil hs⟩

/-- The digits of an integer. -/
theorem exists_digits {strict : Bool} {k : BreadInt} (hmin : 0 ≤ k.val) (hmax : k.val < 2 ^ 31) :
    ∃ t, Body strict (.int k) t := by
  have hvalue : digitsValue (Nat.toDigits 10 k.val.toNat) = k.val.toNat := by
    rw [digitsValue, ← Nat.ofDigitChars_eq_foldl]
    exact Nat.ofDigitChars_ten_toDigits
  have hbound : k.val.toNat < 2 ^ 31 := by omega
  have hlength : (Nat.toDigits 10 k.val.toNat).length ≤ 10 :=
    (Nat.length_toDigits_le_iff (by decide) (by decide)).mpr (hbound.trans (by decide))
  refine ⟨_, .int Nat.toDigits_ne_nil
    (fun c hc => Nat.isDigit_of_mem_toDigits (by decide) (by decide) hc)
    (hlength.trans_lt (by decide)) ?_ (hvalue.trans_lt hbound)⟩
  rw [hvalue, Int.toNat_of_nonneg hmin]

/-- Every printable expression has a text. -/
theorem Printable.exists_body {strict : Bool} {e : ASTExpr} (he : Printable e) :
    ∃ t, Body strict e t := by
  induction he with
  | nil => exact ⟨_, .nil⟩
  | bool b =>
      cases b with
      | false => exact ⟨_, .false⟩
      | true => exact ⟨_, .true⟩
  | int hmin hmax => exact exists_digits hmin hmax
  | var hname hword => exact ⟨_, .var hname hword⟩
  | unary hop _ ih =>
      obtain ⟨t, ht⟩ := ih
      obtain ⟨u, hu⟩ := exists_rendered_of_body ht 5
      exact ⟨_, .unary hop isSpaces_nil hu⟩
  | @binary op left right hop _ _ ihl ihr =>
      obtain ⟨⟨opText, level⟩, hop⟩ := Option.isSome_iff_exists.mp hop
      obtain ⟨t, ht⟩ := ihl
      obtain ⟨t', ht'⟩ := ihr
      obtain ⟨u, hu⟩ := exists_rendered_of_body ht (leftLevel level)
      obtain ⟨u', hu'⟩ := exists_rendered_of_body ht' (level + 1)
      exact ⟨_, .binary hop isSpaces_nil isSpaces_nil hu hu'⟩
  | call hname hword _ ih =>
      obtain ⟨t, ht⟩ := exists_bracketed fun e he => by
        obtain ⟨t, ht⟩ := ih e he
        exact exists_rendered_of_body ht 0
      exact ⟨_, .call hname hword isSpaces_nil ht⟩
  | index _ _ iht ihi =>
      obtain ⟨t, ht⟩ := iht
      obtain ⟨t', ht'⟩ := ihi
      obtain ⟨u, hu⟩ := exists_rendered_of_body ht 6
      obtain ⟨u', hu'⟩ := exists_rendered_of_body ht' 0
      exact ⟨_, .index isSpaces_nil isSpaces_nil isSpaces_nil hu hu'⟩
  | member isOptionalChain hname _ ih =>
      obtain ⟨t, ht⟩ := ih
      obtain ⟨u, hu⟩ := exists_rendered_of_body ht 6
      exact ⟨_, .member isSpaces_blank isSpaces_nil (fun _ _ _ _ => List.cons_ne_nil _ _) hname hu⟩
  | methodCall isOptionalChain hname _ _ ih iha =>
      obtain ⟨t, ht⟩ := ih
      obtain ⟨u, hu⟩ := exists_rendered_of_body ht 6
      obtain ⟨t', ht'⟩ := exists_bracketed fun e he => by
        obtain ⟨t, ht⟩ := iha e he
        exact exists_rendered_of_body ht 0
      exact ⟨_, .methodCall isSpaces_blank isSpaces_nil isSpaces_nil
        (fun _ _ _ _ => List.cons_ne_nil _ _) hname hu ht'⟩
  | array _ ih =>
      obtain ⟨t, ht⟩ := exists_bracketed fun e he => by
        obtain ⟨t, ht⟩ := ih e he
        exact exists_rendered_of_body ht 0
      exact ⟨_, .array ht⟩
  | @dict entries _ _ ihk ihv =>
      by_cases hne : entries = []
      · subst hne
        exact ⟨_, .emptyDict isSpaces_nil isSpaces_nil⟩
      · obtain ⟨t, ht⟩ : ∃ t, Bracketed (Paired (Rendered strict 0)) '[' ']' entries t :=
          exists_bracketed fun entry hentry => by
            obtain ⟨t, ht⟩ := ihk entry hentry
            obtain ⟨t', ht'⟩ := ihv entry hentry
            obtain ⟨u, hu⟩ := exists_rendered_of_body ht 0
            obtain ⟨u', hu'⟩ := exists_rendered_of_body ht' 0
            exact ⟨_, .mk hu isSpaces_nil isSpaces_nil hu'⟩
        exact ⟨_, .dict hne ht⟩

/-- **Parsing undoes printing**: a printable expression has a text, and `parse_expression` reads
each of its texts as this expression, to the end. -/
theorem parse_undoes_printing (conversions : Conversions) {e : ASTExpr} (he : Printable e) :
    (∃ t, Rendered true 0 e t) ∧
      ∀ t space space' n, Rendered true 0 e t → IsSpaces space → IsSpaces space' → t.length < n →
        Reads (parser conversions n).expression (space ++ (t ++ space')) e [] := by
  refine ⟨?_, fun t space space' n h hspace hspace' hlt => ?_⟩
  · obtain ⟨t, ht⟩ := @Printable.exists_body true e he
    exact exists_rendered_of_body ht 0
  · exact (parsesShorter conversions n).expression hspace h hlt (behind_end hspace' 0)

/-- `parse_expression_str_as_ast` on a text of an expression that ends with its extent. -/
theorem reads_expressionStr_rendered (conversions : Conversions) {e : ASTExpr} {t rest : List Char}
    {n : ℕ} (h : Rendered true 0 e t) (hle : t.length ≤ n) (htrim : trimSpace t = t)
    (hextent : extentLength .start (t ++ rest) = t.length) :
    Reads (parseExpressionStr (parser conversions n)) (t ++ rest) e rest := by
  have hat := (h.readsFrom (parsesShorter conversions n) (by decide) hle).whole 0 (by decide) le_rfl
  have hread := hat [] [] (behind_end isSpaces_nil 0)
  rw [List.append_nil] at hread
  refine reads_expressionStr hextent (reads_wholeExpression ?_)
  rw [htrim]
  exact hread

section Inputs

theorem body_digit {strict : Bool} {k : BreadInt} {c : Char} (hc : c.isDigit = true)
    (hk : k.val = (c.toNat - '0'.toNat : ℕ)) (hlt : c.toNat - '0'.toNat < 2 ^ 31) :
    Body strict (.int k) [c] := by
  have hvalue : digitsValue [c] = c.toNat - '0'.toNat := Nat.zero_add _
  refine .int (List.cons_ne_nil _ _) (fun d hd => ?_) (by decide : 1 < maxTokenLen)
    (hk.trans (by rw [hvalue])) (hvalue.trans_lt hlt)
  rwa [List.mem_singleton.mp hd]

/-- `a - (b - 1)`. -/
theorem difference_round_trip :
    Reads (parser ⟨fun _ => 0, fun _ => ⟨0⟩⟩ 12).expression "a - (b - 1)".toList
      (.binary '-' (.var "a".toList) (.binary '-' (.var "b".toList) (.int 1))) [] := by
  have ha : IsIdentifier "a".toList := ⟨rfl, by decide⟩
  have hb : IsIdentifier "b".toList := ⟨rfl, by decide⟩
  have hone : Body true (.int 1) "1".toList := body_digit rfl rfl (by decide)
  have hinner : Body true (.binary '-' (.var "b".toList) (.int 1)) "b - 1".toList :=
    .binary (rfl : operatorSyntax '-' = _) isSpaces_blank isSpaces_blank
      (.plain (by decide) (.var hb (by decide))) (.plain (by decide) hone)
  have htext : Rendered true 0
      (.binary '-' (.var "a".toList) (.binary '-' (.var "b".toList) (.int 1)))
      "a - (b - 1)".toList :=
    .plain (Nat.zero_le _) (.binary (rfl : operatorSyntax '-' = _) isSpaces_blank isSpaces_blank
      (.plain (by decide) (.var ha (by decide)))
      (.parens (by decide) isSpaces_nil isSpaces_nil hinner))
  have hprintable : Printable
      (.binary '-' (.var "a".toList) (.binary '-' (.var "b".toList) (.int 1))) :=
    .binary rfl (.var ha (by decide)) (.binary rfl (.var hb (by decide)) (.int (by decide) (by decide)))
  exact (parse_undoes_printing _ hprintable).2 "a - (b - 1)".toList [] [] 12 htext isSpaces_nil
    isSpaces_nil (by decide)

/-- The digits `1.` in front of a name. -/
theorem reads_oneDot (conversions : Conversions) (n : ℕ) :
    Reads (parser conversions (n + 1)).expression "1.f".toList
      (.double (conversions.strtod "1.".toList)) "f".toList := by
  have hstops : Stops 0 "f".toList := by
    refine ⟨rfl, ?_, fun _ => rfl, fun _ => rfl, fun _ => rfl, fun _ => rfl, fun _ => rfl⟩
    rintro c text heq
    obtain ⟨rfl, rfl⟩ := List.cons.inj heq
    decide
  have hnumber : Reads (parseNumber (parser conversions n)) "1.f".toList
      (.double ((parser conversions n).conversions.strtod "1.".toList)) "f".toList :=
    (reads_text _).bind ((reads_advance 2 _ (by simp)).bind (reads_pure _ _))
  have hconversions : (parser conversions n).conversions = conversions := by
    cases n <;> rfl
  rw [hconversions] at hnumber
  refine reads_logicalOr_of_unary (reads_unary_of_primary rfl ?_
    ((parsePrimary_digit rfl).reads hnumber) (.last (reads_postfixTurn_last hstops.token hstops.ends))
    rfl) hstops
  rintro c hc
  obtain rfl := Option.some.inj hc
  decide

/-- Without a blank the dot of the member `1.f` is one of the number. -/
theorem member_of_int_lost :
    Printable (.member (.int 1) "f".toList false) ∧
      Rendered false 0 (.member (.int 1) "f".toList false) "1.f".toList ∧
      ∀ conversions n,
        Reads (parser conversions (n + 1)).expression "1.f".toList
          (.double (conversions.strtod "1.".toList)) "f".toList ∧
        ¬Reads (parser conversions (n + 1)).expression "1.f".toList
          (.member (.int 1) "f".toList false) [] := by
  have hf : IsIdentifier "f".toList := ⟨rfl, by decide⟩
  refine ⟨.member false hf (.int (by decide) (by decide)), .plain (by decide) ?_,
    fun conversions n => ⟨reads_oneDot conversions n, fun h => ?_⟩⟩
  · exact .member isSpaces_nil isSpaces_nil (fun h => absurd h (by decide)) hf
      (.plain (by decide) (body_digit rfl rfl (by decide)))
  · cases (h.unique (reads_oneDot conversions n)).1

end Inputs

end BreadLang
