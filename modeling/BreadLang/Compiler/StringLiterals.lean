import BreadLang.Compiler.RoundTrip

/-!
# String literals

A string is written with escape sequences for the characters that would end it or would not be
read as they stand.  `parse_string_literal` undoes this: its loop has read a part of the string,
and the characters of the rest are appended one by one.  An interpolation ends the segment that
has been read and starts an empty one.
-/

namespace BreadLang

open Stateful Parse

/-! ### Writing a literal -/

/-- A character, as it is written between the quotes. -/
def escapeChar (c : Char) : List Char :=
  match c with
  | '"' => ['\\', '"']
  | '\\' => ['\\', '\\']
  | '\n' => ['\\', 'n']
  | '\t' => ['\\', 't']
  | '\r' => ['\\', 'r']
  | '\x08' => ['\\', 'b']
  | '\x0c' => ['\\', 'f']
  | c => [c]

/-- A string, as it is written between the quotes. -/
def escapeString (s : BreadString) : List Char :=
  s.flatMap escapeChar

/-- An interpolation with the text of its expression, and the segment behind it. -/
structure Interpolation where
  text : List Char
  expr : ASTExpr
  segment : BreadString

/-- A literal behind its opening quote: a segment, and the interpolations. -/
def literalText (segment : BreadString) : List Interpolation → List Char
  | [] => escapeString segment ++ ['"']
  | i :: is =>
      escapeString segment ++ '\\' :: '(' :: (i.text ++ ')' :: literalText i.segment is)

/-- The node of a segment; an empty one has none. -/
def segmentNodes (segment : BreadString) : List ASTExpr :=
  if segment = [] then [] else [.stringLiteral segment]

/-- The nodes of a literal, in their order. -/
def literalNodes (segment : BreadString) : List Interpolation → List ASTExpr
  | [] => segmentNodes segment
  | i :: is => segmentNodes segment ++ .call "str".toList [i.expr] :: literalNodes i.segment is

/-- The left nested concatenation of nodes. -/
def concatenation : List ASTExpr → ASTExpr
  | [] => .stringLiteral []
  | e :: es => es.foldl (.binary '+') e

/-- The text in an interpolation is that of an expression: `parse_expression` reads it in front
of the closing parenthesis. -/
def ReadsInside (p : Parser) (text : List Char) (e : ASTExpr) : Prop :=
  ∀ rest, ∃ mid, Reads p.expression (text ++ ')' :: rest) e mid ∧
    skipSpaceAndComments false mid = ')' :: rest

/-- The texts of an expression are such texts. -/
theorem readsInside_of_rendered (conversions : Conversions) {e : ASTExpr}
    {t space space' : List Char} {n : ℕ} (h : Rendered true 0 e t) (hspace : IsSpaces space)
    (hspace' : IsSpaces space') (hlt : t.length < n) :
    ReadsInside (parser conversions n) (space ++ (t ++ space')) e := by
  intro rest
  have hbehind := behind_closer rest hspace' (show ')' ∈ closers by decide)
  refine ⟨')' :: rest, ?_, startsToken_cons rfl (by decide)⟩
  simpa only [List.append_assoc] using
    (parsesShorter conversions n).expression hspace h hlt hbehind

/-! ### What has been read -/

/-- The nodes that have been read, in the variable `result_expr`. -/
def joined (nodes : List ASTExpr) : Option ASTExpr :=
  nodes.foldl (fun result e => some (concatenate result e)) none

section Joined

variable {nodes : List ASTExpr} {e : ASTExpr} {segment : BreadString}

theorem joined_append_singleton :
    joined (nodes ++ [e]) = some (concatenate (joined nodes) e) := by
  rw [joined, List.foldl_append]
  rfl

theorem joined_cons (e : ASTExpr) (es : List ASTExpr) :
    joined (e :: es) = some (concatenation (e :: es)) := by
  have hfold : ∀ (es : List ASTExpr) (e : ASTExpr),
      es.foldl (fun result e => some (concatenate result e)) (some e) =
        some (es.foldl (.binary '+') e) := by
    intro es
    induction es with
    | nil => exact fun _ => rfl
    | cons d es ih => exact fun e => ih (.binary '+' e d)
  exact hfold es e

theorem flushSegment_joined :
    flushSegment segment (joined nodes) = joined (nodes ++ segmentNodes segment) := by
  cases segment with
  | nil =>
      rw [segmentNodes, if_pos rfl, List.append_nil]
      rfl
  | cons c segment =>
      rw [segmentNodes, if_neg (List.cons_ne_nil _ _), joined_append_singleton]
      rfl

/-- The node that is returned. -/
theorem concatenation_of_joined :
    (joined nodes).elim (.stringLiteral segment) (fun e => (flushSegment segment (some e)).getD e) =
      concatenation (nodes ++ segmentNodes segment) := by
  cases nodes with
  | nil =>
      cases segment with
      | nil => rfl
      | cons c segment => rfl
  | cons e es =>
      have hflush : flushSegment segment (joined (e :: es)) = joined (e :: es ++ segmentNodes segment) :=
        flushSegment_joined
      rw [joined_cons] at hflush ⊢
      rw [Option.elim_some, hflush, List.cons_append, joined_cons]
      rfl

end Joined

/-! ### Reading a literal -/

section Reading

variable {p : Parser} {segment s : BreadString} {result : Option ASTExpr} {source rest : List Char}
  {final : BreadString × Option ASTExpr}

/-- A turn of the loop at a character that is not escaped. -/
theorem reads_stringTurn_plain {c : Char} (hquote : c ≠ '"') (hslash : c ≠ '\\') :
    Reads (stringTurn p (segment, result)) (c :: source) (.inl (segment ++ [c], result)) source := by
  refine (reads_text _).bind ?_
  split
  next heq => cases heq
  next heq => exact absurd (List.cons.inj heq).1 hquote
  next heq => exact absurd (List.cons.inj heq).1 hslash
  next heq => exact absurd (List.cons.inj heq).1 hslash
  next heq =>
    obtain ⟨rfl, rfl⟩ := List.cons.inj heq
    exact (reads_advance 1 _ (by simp)).bind (reads_pure _ _)

/-- A turn of the loop at a character, as it is written. -/
theorem reads_stringTurn_char (c : Char) :
    Reads (stringTurn p (segment, result)) (escapeChar c ++ source)
      (.inl (segment ++ [c], result)) source := by
  unfold escapeChar
  split
  next => exact (reads_text _).bind ((reads_advance 2 _ (by simp)).bind (reads_pure _ _))
  next => exact (reads_text _).bind ((reads_advance 2 _ (by simp)).bind (reads_pure _ _))
  next => exact (reads_text _).bind ((reads_advance 2 _ (by simp)).bind (reads_pure _ _))
  next => exact (reads_text _).bind ((reads_advance 2 _ (by simp)).bind (reads_pure _ _))
  next => exact (reads_text _).bind ((reads_advance 2 _ (by simp)).bind (reads_pure _ _))
  next => exact (reads_text _).bind ((reads_advance 2 _ (by simp)).bind (reads_pure _ _))
  next => exact (reads_text _).bind ((reads_advance 2 _ (by simp)).bind (reads_pure _ _))
  next hquote hslash _ _ _ _ _ => exact reads_stringTurn_plain hquote hslash

theorem escapeChar_length_pos (c : Char) : 0 < (escapeChar c).length := by
  unfold escapeChar
  split <;> exact Nat.succ_pos _

/-- The loop goes over a string, as it is written. -/
theorem readsTurns_string
    (h : ReadsTurns (stringTurn p) (segment ++ s, result) source final rest) :
    ReadsTurns (stringTurn p) (segment, result) (escapeString s ++ source) final rest := by
  induction s generalizing segment with
  | nil => rwa [List.append_nil] at h
  | cons c s ih =>
      rw [escapeString, List.flatMap_cons, List.append_assoc]
      refine .next (reads_stringTurn_char c) ?_ (ih ?_)
      · have hpos := escapeChar_length_pos c
        simp only [List.length_append]
        omega
      · rwa [List.append_cons] at h

/-- A turn of the loop at an interpolation. -/
theorem reads_stringTurn_interpolation {text : List Char} {e : ASTExpr}
    (h : ReadsInside p text e) :
    Reads (stringTurn p (segment, result)) ('\\' :: '(' :: (text ++ ')' :: source))
      (.inl ([], some (concatenate (flushSegment segment result) (.call "str".toList [e])))) source := by
  obtain ⟨mid, hread, hmid⟩ := h source
  have hskip := reads_skipWhitespace mid
  rw [hmid] at hskip
  have hinterpolation : Reads (parseInterpolation p (flushSegment segment result))
      ('\\' :: '(' :: (text ++ ')' :: source))
      (concatenate (flushSegment segment result) (.call "str".toList [e])) source :=
    (reads_advance 2 _ (by simp)).bind (hread.bind (hskip.bind
      ((reads_require ')' _ _).bind (reads_pure _ _))))
  exact (reads_text _).bind (hinterpolation.bind (reads_pure _ _))

/-- **The loop of `parse_string_literal`** on a literal, where `nodes` have been read. -/
theorem readsTurns_literal (rest : List Char) (is : List Interpolation) :
    ∀ (segment : BreadString) (nodes : List ASTExpr), (∀ i ∈ is, ReadsInside p i.text i.expr) →
      ∃ last before, ReadsTurns (stringTurn p) ([], joined nodes) (literalText segment is ++ rest)
        (last, joined before) ('"' :: rest) ∧
        before ++ segmentNodes last = nodes ++ literalNodes segment is := by
  induction is with
  | nil =>
      intro segment nodes _
      refine ⟨segment, nodes, ?_, rfl⟩
      rw [literalText, List.append_assoc]
      exact readsTurns_string (.last ((reads_text _).bind (reads_pure _ _)))
  | cons i is ih =>
      intro segment nodes his
      obtain ⟨hi, his⟩ := List.forall_mem_cons.mp his
      obtain ⟨last, before, hturns, hnodes⟩ :=
        ih i.segment (nodes ++ segmentNodes segment ++ [.call "str".toList [i.expr]]) his
      refine ⟨last, before, ?_, by simpa [literalNodes] using hnodes⟩
      have hturn := @reads_stringTurn_interpolation p segment (joined nodes)
        (literalText i.segment is ++ rest) i.text i.expr hi
      rw [flushSegment_joined, ← joined_append_singleton] at hturn
      simp only [literalText, List.append_assoc, List.cons_append]
      refine readsTurns_string (.next hturn ?_ hturns)
      simp only [List.length_append, List.length_cons]
      omega

/-- **String literals round-trip**: a string is read as it was written, and a literal with
interpolations as the concatenation of its segments and of the calls of `str`. -/
theorem string_literal_round_trip (p : Parser) (rest : List Char) :
    (∀ s : BreadString, Reads (parseStringLiteral p) ('"' :: (escapeString s ++ '"' :: rest))
      (.stringLiteral s) rest) ∧
    ∀ segment is, (∀ i ∈ is, ReadsInside p i.text i.expr) →
      Reads (parseStringLiteral p) ('"' :: (literalText segment is ++ rest))
        (concatenation (literalNodes segment is)) rest := by
  have hliteral : ∀ segment is, (∀ i ∈ is, ReadsInside p i.text i.expr) →
      Reads (parseStringLiteral p) ('"' :: (literalText segment is ++ rest))
        (concatenation (literalNodes segment is)) rest := by
    intro segment is his
    obtain ⟨last, before, hturns, hnodes⟩ := readsTurns_literal rest is segment [] his
    rw [List.nil_append] at hnodes
    refine (reads_advance 1 _ (by simp)).bind (hturns.whileLoop.bind ((reads_require '"' _ rest).bind ?_))
    rw [← hnodes, ← concatenation_of_joined]
    cases joined before with
    | none => exact reads_pure _ _
    | some e => exact reads_pure _ _
  refine ⟨fun s => ?_, hliteral⟩
  have hread := hliteral s [] fun _ h => absurd h List.not_mem_nil
  have hnode : concatenation (segmentNodes s) = .stringLiteral s := by
    cases s with
    | nil => rfl
    | cons c s => rfl
  rw [literalNodes, hnode, literalText, List.append_assoc] at hread
  exact hread

/-- `"a\(1)\(b)"`. -/
theorem interpolations_round_trip :
    Reads (parseStringLiteral (parser ⟨fun _ => 0, fun _ => ⟨0⟩⟩ 2)) "\"a\\(1)\\(b)\"".toList
      (.binary '+' (.binary '+' (.stringLiteral "a".toList) (.call "str".toList [.int 1]))
        (.call "str".toList [.var "b".toList])) [] := by
  have hname : IsIdentifier "b".toList := ⟨rfl, by decide⟩
  have htext : Rendered true 0 (.int 1) "1".toList :=
    .plain (Nat.zero_le _) (body_digit rfl rfl (by decide))
  have htext' : Rendered true 0 (.var "b".toList) "b".toList :=
    .plain (Nat.zero_le _) (.var hname (by decide))
  have hone := readsInside_of_rendered ⟨fun _ => 0, fun _ => ⟨0⟩⟩ htext isSpaces_nil isSpaces_nil
    (show _ < 2 by decide)
  have hb := readsInside_of_rendered ⟨fun _ => 0, fun _ => ⟨0⟩⟩ htext' isSpaces_nil isSpaces_nil
    (show _ < 2 by decide)
  refine (string_literal_round_trip _ []).2 "a".toList
    [⟨"1".toList, .int 1, []⟩, ⟨"b".toList, .var "b".toList, []⟩] fun i hi => ?_
  obtain rfl | hi := List.mem_cons.mp hi
  · exact hone
  · obtain rfl := List.mem_singleton.mp hi
    exact hb

end Reading

end BreadLang
