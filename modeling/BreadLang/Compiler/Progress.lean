import BreadLang.Compiler.Advancing
import BreadLang.Compiler.ExprReading

/-!
# The expression parser ends within its text

`Moves m source Q` is the total correctness of a function of the parser on a text: it ends, with
a result such that `Q` or with a return of `NULL`, and the pointer neither goes back nor moves
behind the end of the text.

A loop whose turns read some of the text or are the last ones (`GetsOn`) ends.  The calls that
go back to the start of the grammar are on shorter texts (`Parser.MovesBelow`), so a parser
that is more calls away from running out of stack than the text has characters does not run
out of it.
-/

namespace BreadLang

open Stateful Parse

/-- **A function of the parser ends on a text, with the pointer in the text.** -/
def Moves {α : Type} (m : Parse α) (source : List Char) (Q : α → List Char → Prop) : Prop :=
  ∀ s : ParseState, s.rest = source →
    m.result s ≠ .error .diverges ∧ (m.final s).rest <:+ source ∧
      (m.final s).pastEnd = s.pastEnd ∧ ∀ a, m.result s = .ok a → Q a (m.final s).rest

/-- Nothing is said about the result. -/
def Anyhow {α : Type} : α → List Char → Prop := fun _ _ => True

/-- Some of the text has been read. -/
def Shorter {α : Type} (source : List Char) : α → List Char → Prop :=
  fun _ rest => rest.length < source.length

/-- Some of the text has been read in a turn of a loop, or it is the last one. -/
def ShorterOrLast {α β : Type} (source : List Char) : α ⊕ β → List Char → Prop :=
  Sum.elim (Shorter source) Anyhow

section Rules

variable {α β : Type} {m : Parse α} {f : α → Parse β} {a : α} {source rest whole : List Char}
  {R : α → List Char → Prop} {Q Q' : β → List Char → Prop} {n : ℕ}

theorem moves_pure {R : α → List Char → Prop} (h : R a source) : Moves (pure a) source R := by
  rintro s rfl
  refine ⟨nofun, List.suffix_rfl, rfl, fun b hb => ?_⟩
  obtain rfl := Except.ok.inj hb
  exact h

theorem moves_shorter (h : source.length < whole.length) :
    Moves (pure a) source (Shorter whole) :=
  moves_pure h

theorem moves_anyhow : Moves (pure a) source Anyhow :=
  moves_pure trivial

theorem moves_next (h : source.length < whole.length) :
    Moves (pure (.inl a : α ⊕ β)) source (ShorterOrLast whole) :=
  moves_pure h

theorem moves_last {b : β} : Moves (pure (.inr b : α ⊕ β)) source (ShorterOrLast whole) :=
  moves_pure trivial

theorem moves_null : Moves (null : Parse α) source R := by
  rintro s rfl
  exact ⟨nofun, List.suffix_rfl, rfl, nofun⟩

theorem moves_syntaxError {message : String} : Moves (syntaxError message : Parse α) source R := by
  rintro s rfl
  exact ⟨nofun, List.suffix_rfl, rfl, nofun⟩

/-- One function after another, on what is left of the text. -/
theorem Moves.bind (hm : Moves m source R)
    (hf : ∀ a rest, rest.length ≤ source.length → R a rest → Moves (f a) rest Q) :
    Moves (m >>= f) source Q := by
  intro s hs
  obtain ⟨hends, hsuffix, hbound, hpost⟩ := hm s hs
  rw [result_bind, final_bind]
  cases hr : m.result s with
  | ok a =>
    obtain ⟨hends', hsuffix', hbound', hpost'⟩ :=
      hf a _ hsuffix.length_le (hpost a hr) (m.final s) rfl
    exact ⟨hends', hsuffix'.trans hsuffix, hbound'.trans hbound, hpost'⟩
  | error e =>
    rw [hr] at hends
    exact ⟨fun he => hends (congrArg _ (Except.error.inj he)), hsuffix, hbound, nofun⟩

theorem Moves.conseq (h : Moves m source R) {R' : α → List Char → Prop}
    (hR : ∀ a rest, rest.length ≤ source.length → R a rest → R' a rest) : Moves m source R' := by
  intro s hs
  obtain ⟨hends, hsuffix, hbound, hpost⟩ := h s hs
  exact ⟨hends, hsuffix, hbound, fun a ha => hR a _ hsuffix.length_le (hpost a ha)⟩

theorem Moves.anyhow (h : Moves m source R) : Moves m source Anyhow :=
  h.conseq fun _ _ _ _ => trivial

/-- The last function of several, after which the text is shorter. -/
theorem Moves.shorter_of_lt (h : Moves m source R) (hlt : source.length < whole.length) :
    Moves m source (Shorter whole) :=
  h.conseq fun _ _ hle _ => lt_of_le_of_lt hle hlt

theorem Moves.shorter_of_le (h : Moves m source (Shorter source))
    (hle : source.length ≤ whole.length) : Moves m source (Shorter whole) :=
  h.conseq fun _ _ _ hlt => lt_of_lt_of_le hlt hle

/-- A call whose result is tested for `NULL`. -/
theorem Moves.testNull (h : Moves m source R) :
    Moves (testNull m) source fun o rest => ∀ a, o = some a → R a rest := by
  intro s hs
  obtain ⟨hends, hsuffix, hbound, hpost⟩ := h s hs
  rw [Parse.testNull, result_attempt, final_attempt]
  cases hr : m.result s with
  | ok a =>
    refine ⟨by rintro ⟨⟩, hsuffix, hbound, ?_⟩
    rintro _ ⟨⟩ b ⟨⟩
    exact hpost a hr
  | error e =>
    cases e with
    | null => exact ⟨by rintro ⟨⟩, hsuffix, hbound, by rintro _ ⟨⟩ b ⟨⟩⟩
    | diverges => exact absurd hr hends

/-- A function of the parser on a text of its own leaves the pointer where it is. -/
theorem Moves.onText (h : Moves m source R) :
    Moves (onText source m) whole fun a rest => rest = whole ∧ ∃ left, R a left := by
  rintro s rfl
  obtain ⟨hends, -, hbound, hpost⟩ := h { s with rest := source } rfl
  rw [Parse.onText, result_within, final_within]
  exact ⟨hends, List.suffix_rfl, hbound, fun a ha => ⟨rfl, _, hpost a ha⟩⟩

/-- The pointer is where it was also after a `NULL`. -/
theorem Moves.testNull_onText (h : Moves m source R) :
    Moves (Parse.testNull (Parse.onText source m)) whole fun _ rest => rest = whole := by
  rintro s rfl
  obtain ⟨hends, hsuffix, hbound, -⟩ := h.onText.testNull s rfl
  refine ⟨hends, hsuffix, hbound, fun o _ => ?_⟩
  rw [Parse.testNull, final_attempt]
  rfl

/-! ### Primitives -/

/-- What only looks at the text. -/
theorem Reads.moves (hm : Reads m source a source) (hf : Moves (f a) source Q) :
    Moves (m >>= f) source Q := by
  intro s hs
  obtain ⟨hresult, hfinal⟩ := hm s hs
  subst hs
  rw [result_bind, final_bind_of_ok hresult, hresult, hfinal]
  exact hf s rfl

/-- What reads some of the text. -/
theorem Reads.moves_suffix (hm : Reads m source a rest) (hsuffix : rest <:+ source)
    (hf : Moves (f a) rest Q) : Moves (m >>= f) source Q := by
  intro s hs
  obtain ⟨hresult, hfinal⟩ := hm s hs
  rw [result_bind, final_bind_of_ok hresult, hresult, hfinal]
  obtain ⟨hends, hsuffix', hbound, hpost⟩ := hf { s with rest := rest } rfl
  exact ⟨hends, hsuffix'.trans hsuffix, hbound, hpost⟩

theorem moves_text {f : List Char → Parse β} (hf : Moves (f source) source Q) :
    Moves (text >>= f) source Q :=
  (reads_text source).moves hf

theorem moves_peek {f : Option Char → Parse β} (hf : Moves (f source.head?) source Q) :
    Moves (peek >>= f) source Q :=
  (reads_peek source).moves hf

theorem moves_looksAt {f : Bool → Parse β} {word : List Char}
    (hf : ∀ found, (found = true → word.length ≤ source.length) → Moves (f found) source Q) :
    Moves (looksAt word >>= f) source Q :=
  (reads_looksAt word source).moves
    (hf _ fun h => (List.isPrefixOf_iff_prefix.mp h).length_le)

theorem moves_looksAtKeyword {f : Bool → Parse β} {word : List Char}
    (hf : ∀ found, (found = true → word.length ≤ source.length) → Moves (f found) source Q) :
    Moves (looksAtKeyword word >>= f) source Q :=
  (reads_looksAtKeyword word source).moves
    (hf _ fun h => (List.isPrefixOf_iff_prefix.mp (Bool.and_eq_true_iff.mp h).1).length_le)

theorem moves_looksAtWord {f : Bool → Parse β} {word : List Char}
    (hf : ∀ found, (found = true → word.length ≤ source.length) → Moves (f found) source Q) :
    Moves (looksAtWord word >>= f) source Q :=
  (reads_looksAtWord word source).moves
    (hf _ fun h => (List.isPrefixOf_iff_prefix.mp (Bool.and_eq_true_iff.mp h).1).length_le)

/-- The pointer is advanced over characters that are there. -/
theorem moves_advance {f : Unit → Parse β} (hn : n ≤ source.length)
    (hf : ∀ rest, rest.length + n = source.length → Moves (f ()) rest Q) :
    Moves (advance n >>= f) source Q := by
  refine (reads_advance n source hn).moves_suffix (List.drop_suffix n source) (hf _ ?_)
  rw [List.length_drop]
  omega

theorem moves_advance_shorter (hn : n ≤ source.length) (hpos : 0 < n) :
    Moves (advance n) source (Shorter source) := by
  rintro s rfl
  refine ⟨nofun, ?_, ?_, fun _ _ => ?_⟩ <;> rw [final_advance hn]
  · exact List.drop_suffix n s.rest
  · show (s.rest.drop n).length < s.rest.length
    rw [List.length_drop]
    omega

theorem moves_takeChars {f : List Char → Parse β} {p : Char → Bool}
    (hf : ∀ rest, (source.takeWhile p).length + rest.length = source.length →
      Moves (f (source.takeWhile p)) rest Q) :
    Moves (takeChars p >>= f) source Q := by
  refine (reads_takeChars p source).moves_suffix (List.dropWhile_suffix p) (hf _ ?_)
  rw [← List.length_append, List.takeWhile_append_dropWhile]

theorem moves_skipWhitespace {f : Unit → Parse β}
    (hf : ∀ rest, rest.length ≤ source.length → Moves (f ()) rest Q) :
    Moves (skipWhitespace >>= f) source Q :=
  (reads_skipWhitespace source).moves_suffix (skip_suffix false source)
    (hf _ (skip_suffix false source).length_le)

theorem moves_skipTypeWhitespace {f : Unit → Parse β}
    (hf : ∀ rest, rest.length ≤ source.length → Moves (f ()) rest Q) :
    Moves (skipTypeWhitespace >>= f) source Q := by
  have hreads : Reads skipTypeWhitespace source () (source.dropWhile isSpace) := by
    rintro s rfl
    exact ⟨rfl, rfl⟩
  exact hreads.moves_suffix (List.dropWhile_suffix _)
    (hf _ (List.dropWhile_suffix _).length_le)

theorem length_pos_of_head? {c : Char} (h : source.head? = some c) : 0 < source.length := by
  cases source with
  | nil => cases h
  | cons c source => exact Nat.succ_pos _

theorem length_pos_of_beq {c : Char} (h : (source.head? == some c) = true) : 0 < source.length :=
  length_pos_of_head? (beq_iff_eq.mp h)

/-- A character that has to come next. -/
theorem moves_expect {c : Char} {f : Unit → Parse β}
    (hf : ∀ rest, rest.length < source.length → Moves (f ()) rest Q) :
    Moves (expect c >>= f) source Q := by
  have hexpect : Moves (expect c) source (Shorter source) := by
    refine moves_peek ?_
    split
    · next h => exact moves_advance_shorter (length_pos_of_beq h) Nat.one_pos
    · exact moves_null
  exact hexpect.bind fun _ rest _ hlt => hf rest hlt

theorem moves_require {c : Char} {message : String} {f : Unit → Parse β}
    (hf : ∀ rest, rest.length < source.length → Moves (f ()) rest Q) :
    Moves (require c message >>= f) source Q := by
  have hrequire : Moves (require c message) source (Shorter source) := by
    refine moves_peek ?_
    split
    · next h => exact moves_advance_shorter (length_pos_of_beq h) Nat.one_pos
    · exact moves_syntaxError
  exact hrequire.bind fun _ rest _ hlt => hf rest hlt

/-- A name. -/
theorem moves_identifier {f : Ident → Parse β}
    (hf : ∀ name rest, rest.length < source.length → Moves (f name) rest Q) :
    Moves (identifier >>= f) source Q := by
  have hname : Moves identifier source (Shorter source) := by
    refine moves_takeChars fun rest hlength => ?_
    split
    · exact moves_null
    · next h =>
      have hpos : 0 < (source.takeWhile isIdentChar).length :=
        List.length_pos_of_ne_nil fun hnil => h (by rw [hnil]; rfl)
      exact moves_shorter (by omega)
  exact hname.bind fun name rest _ hlt => hf name rest hlt

/-- An error that is recorded. -/
theorem moves_setError {f : Unit → Parse β} {type : BreadErrorType} {message : String}
    (hf : Moves (f ()) source Q) : Moves (setError type message >>= f) source Q := by
  rintro s rfl
  exact hf { s with error := some ⟨type, message⟩, compilationFailed := true } rfl

/-! ### Loops -/

/-- **A loop gets on**: every turn of it reads some of the text, or it is the last one, on texts
of fewer characters. -/
def GetsOn (turn : α → Parse (α ⊕ β)) (k : ℕ) : Prop :=
  ∀ a source, source.length < k → Moves (turn a) source (ShorterOrLast source)

/-- **A loop ends**, with an invariant of the value and the text. -/
theorem moves_whileLoop {turn : α → Parse (α ⊕ β)} {I : α → List Char → Prop}
    (hturn : ∀ a rest, rest.length ≤ source.length → I a rest →
      Moves (turn a) rest (Sum.elim (fun a next => next.length < rest.length ∧ I a next) Q))
    (ha : I a source) : Moves (whileLoop turn a) source Q := by
  suffices hloop : ∀ n a rest, rest.length < n → rest.length ≤ source.length → I a rest →
      Moves (loop .diverges turn n a) rest Q from
    moves_text (hloop _ a source (Nat.lt_succ_self _) le_rfl ha)
  intro n
  induction n with
  | zero => exact fun a rest hlt => absurd hlt (Nat.not_lt_zero _)
  | succ n ih =>
    intro a rest hn hle hI
    refine (hturn a rest hle hI).bind fun next left hleft hpost => ?_
    cases next with
    | inl a => exact ih a left (by have := hpost.1; omega) (hleft.trans hle) hpost.2
    | inr b => exact moves_pure hpost

theorem GetsOn.whileLoop {turn : α → Parse (α ⊕ β)} {k : ℕ} (h : GetsOn turn k)
    (hk : source.length < k) : Moves (whileLoop turn a) source Anyhow := by
  refine moves_whileLoop (I := fun _ _ => True) (fun a rest hle _ => ?_) trivial
  refine (h a rest (lt_of_le_of_lt hle hk)).conseq fun next left _ hpost => ?_
  cases next with
  | inl a => exact ⟨hpost, trivial⟩
  | inr b => trivial

end Rules

/-! ### Types -/

/-- The calls of a parser end on texts of fewer characters, and read some of them. -/
structure Parser.MovesBelow (p : Parser) (k : ℕ) : Prop where
  typeDescriptor : ∀ source, source.length < k → Moves p.typeDescriptor source (Shorter source)
  expression : ∀ source, source.length < k → Moves p.expression source (Shorter source)
  unary : ∀ source, source.length < k → Moves p.unary source (Shorter source)
  stmt : ∀ source, source.length < k → Moves p.stmt source (Shorter source)

section Types

variable {p : Parser} {k : ℕ} (hp : p.MovesBelow k) {source : List Char}
include hp

theorem moves_parseBracketType (hk : source.length ≤ k) (hpos : 0 < source.length) :
    Moves (parseBracketType p) source (Shorter source) := by
  refine moves_advance hpos fun rest _ => ?_
  refine (hp.typeDescriptor rest (by omega)).bind fun first rest _ hfirst => ?_
  refine moves_skipTypeWhitespace fun rest _ => moves_peek ?_
  unfold Shorter at hfirst
  split
  · next h =>
    refine moves_advance (length_pos_of_beq h) fun rest _ => ?_
    refine (hp.typeDescriptor rest (by omega)).bind fun second rest _ _ => ?_
    exact moves_skipTypeWhitespace fun rest _ => moves_expect fun rest _ =>
      moves_shorter (by omega)
  · exact moves_expect fun rest _ => moves_shorter (by omega)

omit hp in
theorem length_takeWhile_pos (h : source.head?.any isIdentStart = true) :
    0 < (source.takeWhile isIdentChar).length := by
  cases source with
  | nil => cases h
  | cons c source =>
    have hc : isIdentChar c = true := isIdentChar_of_start h
    simp [hc]

omit hp in
theorem moves_parseNamedType (h : source.head?.any isIdentStart = true) :
    Moves parseNamedType source (Shorter source) := by
  refine moves_takeChars fun rest hlength => ?_
  have hpos := length_takeWhile_pos h
  split
  · exact moves_null
  · exact moves_shorter (by omega)

theorem moves_parseBaseType (hk : source.length ≤ k) :
    Moves (parseBaseType p source.head?) source (Shorter source) := by
  unfold parseBaseType
  split
  · exact moves_null
  · next c h =>
    split
    · exact moves_parseBracketType hp hk (length_pos_of_head? h)
    · split
      · next hstart => exact moves_parseNamedType (by rw [h]; exact hstart)
      · exact moves_null

theorem moves_parseTypeDescriptor (hk : source.length ≤ k) :
    Moves (parseTypeDescriptor p) source (Shorter source) := by
  refine moves_skipTypeWhitespace fun rest hrest => moves_peek ?_
  refine (moves_parseBaseType hp (hrest.trans hk)).bind fun type rest' _ hlt => ?_
  have hshort : rest'.length < rest.length := hlt
  refine moves_skipTypeWhitespace fun rest'' _ => moves_peek ?_
  split
  · next h => exact moves_advance (length_pos_of_beq h) fun last _ => moves_shorter (by omega)
  · exact moves_shorter (by omega)

end Types

/-! ### Literals -/

section Expressions

variable {p : Parser} {k : ℕ} (hp : p.MovesBelow k) {source : List Char}

theorem numberLength_le (hasDot : Bool) (source : List Char) :
    numberLength hasDot source ≤ source.length := by
  induction source generalizing hasDot with
  | nil => exact le_rfl
  | cons c source ih =>
    rw [numberLength, List.length_cons]
    split
    · exact Nat.succ_le_succ (ih _)
    · split
      · exact Nat.succ_le_succ (ih _)
      · exact Nat.zero_le _

theorem moves_parseNumber : Moves (parseNumber p) source (Shorter source) := by
  refine moves_text ?_
  have hlength : (source.take (numberLength false source)).length = numberLength false source := by
    rw [List.length_take, min_eq_left (numberLength_le _ _)]
  dsimp only
  refine moves_advance (by rw [hlength]; exact numberLength_le _ _) fun rest hrest => ?_
  split
  · exact moves_null
  · next hne =>
    have hpos : 0 < (source.take (numberLength false source)).length :=
      List.length_pos_of_ne_nil fun hnil => hne (by rw [hnil]; rfl)
    unfold numberNode
    split
    · exact moves_syntaxError
    · split <;> exact moves_shorter (by omega)

include hp

theorem moves_parseInterpolation (hk : source.length ≤ k) (h : 2 ≤ source.length)
    (result : Option ASTExpr) :
    Moves (parseInterpolation p result) source (Shorter source) := by
  refine moves_advance h fun rest _ => ?_
  refine (hp.expression rest (by omega)).bind fun e rest' _ _ => ?_
  exact moves_skipWhitespace fun _ _ => moves_require fun _ _ => moves_shorter (by omega)

theorem stringTurn_getsOn : GetsOn (stringTurn p) k := by
  intro s source hk
  refine moves_text ?_
  split
  · exact moves_last
  · exact moves_last
  · refine (moves_parseInterpolation hp hk.le (by simp) _).bind fun result rest _ hlt => ?_
    exact moves_next hlt
  · exact moves_advance (by simp) fun rest hrest => moves_next (by omega)
  · exact moves_advance (by simp) fun rest hrest => moves_next (by omega)

theorem moves_parseStringLiteral (hk : source.length ≤ k) (h : 0 < source.length) :
    Moves (parseStringLiteral p) source (Shorter source) := by
  refine moves_advance h fun rest _ => ?_
  refine ((stringTurn_getsOn hp).whileLoop (by omega)).bind fun final rest' _ _ => ?_
  refine moves_require fun last _ => ?_
  obtain ⟨segment, result⟩ := final
  cases result <;> exact moves_shorter (by omega)

/-! ### Lists -/

omit hp in
/-- A comma behind an item of a list, and the next turn; else it was the last one. -/
theorem moves_comma {α : Type} {a a' : α} {whole : List Char} (hlt : source.length < whole.length) :
    Moves (do
      if (← peek) == some ',' then
        advance 1
        skipWhitespace
        return .inl a
      else
        return .inr a' : Parse (α ⊕ α)) source (ShorterOrLast whole) := by
  refine moves_peek ?_
  split
  · next h =>
    exact moves_advance (length_pos_of_beq h) fun _ _ =>
      moves_skipWhitespace fun _ _ => moves_next (by omega)
  · exact moves_last

theorem argumentTurn_getsOn : GetsOn (argumentTurn p) k := by
  intro args source hk
  refine moves_peek ?_
  split
  · exact moves_last
  · exact moves_last
  · refine (hp.expression source hk).bind fun arg rest _ hlt => ?_
    exact moves_skipWhitespace fun _ hle => moves_comma (lt_of_le_of_lt hle hlt)

/-- The arguments of a call, behind the parenthesis. -/
theorem moves_parseArgumentList (hk : source.length < k) :
    Moves (parseArgumentList p) source (Shorter source) := by
  refine moves_skipWhitespace fun rest hrest => moves_peek ?_
  split
  · next h => exact moves_advance (length_pos_of_beq h) fun _ _ => moves_shorter (by omega)
  · refine ((argumentTurn_getsOn hp).whileLoop (by omega)).bind fun args _ _ _ => ?_
    exact moves_skipWhitespace fun _ _ => moves_require fun _ _ => moves_shorter (by omega)

theorem moves_parseBracketItem (hk : source.length < k) (items : BracketItems) :
    Moves (parseBracketItem p items) source (Shorter source) := by
  refine (hp.expression source hk).bind fun first rest _ hfirst => ?_
  have hlt : rest.length < source.length := hfirst
  refine moves_skipWhitespace fun rest' hrest' => moves_peek ?_
  split
  · refine moves_require fun behind _ => ?_
    exact (hp.expression behind (by omega)).bind fun _ _ _ _ => moves_shorter (by omega)
  · exact moves_shorter (by omega)

theorem bracketTurn_getsOn : GetsOn (bracketTurn p) k := by
  intro items source hk
  refine moves_peek ?_
  split
  · exact moves_last
  · exact moves_last
  · refine (moves_parseBracketItem hp hk items).bind fun items rest _ hlt => ?_
    exact moves_skipWhitespace fun _ hle => moves_comma (lt_of_le_of_lt hle hlt)

theorem moves_parseBracketRest (hk : source.length < k) :
    Moves (parseBracketRest p source.head?) source (Shorter source) := by
  unfold parseBracketRest
  split
  · next h =>
    refine moves_advance (length_pos_of_head? h) fun _ _ => ?_
    exact moves_skipWhitespace fun _ _ => moves_require fun _ _ => moves_shorter (by omega)
  · next h => exact moves_advance (length_pos_of_head? h) fun _ _ => moves_shorter (by omega)
  · refine ((bracketTurn_getsOn hp).whileLoop hk).bind fun items _ _ _ => ?_
    refine moves_skipWhitespace fun _ _ => moves_require fun _ _ => ?_
    split <;> exact moves_shorter (by omega)

theorem moves_parseArrayOrDict (hk : source.length ≤ k) :
    Moves (parseArrayOrDict p) source (Shorter source) := by
  refine moves_skipWhitespace fun _ _ => moves_expect fun _ _ =>
    moves_skipWhitespace fun rest _ => moves_peek ?_
  exact (moves_parseBracketRest hp (by omega)).shorter_of_lt (by omega)

/-! ### Identifiers -/

theorem fieldTurn_getsOn : GetsOn (fieldTurn p) k := by
  intro fields source hk
  refine moves_peek ?_
  split
  · exact moves_last
  · exact moves_last
  · split
    · exact moves_syntaxError
    · refine moves_takeChars fun _ _ => moves_skipWhitespace fun _ _ =>
        moves_require fun rest _ => ?_
      refine (hp.expression rest (by omega)).bind fun value _ _ _ => ?_
      exact moves_skipWhitespace fun _ _ => moves_comma (by omega)

theorem moves_parseStructLiteral (hk : source.length ≤ k) (h : 0 < source.length) (name : Ident) :
    Moves (parseStructLiteral p name) source Anyhow := by
  refine moves_advance h fun _ _ => moves_skipWhitespace fun _ _ => ?_
  refine ((fieldTurn_getsOn hp).whileLoop (by omega)).bind fun fields _ _ _ => ?_
  exact moves_skipWhitespace fun _ _ => moves_require fun _ _ => moves_anyhow

theorem moves_parseAfterName (hk : source.length < k) (name : Ident) :
    Moves (parseAfterName p name) source Anyhow := by
  unfold parseAfterName
  split
  · exact moves_anyhow
  · split
    · exact moves_anyhow
    · refine moves_skipWhitespace fun rest _ => moves_peek ?_
      split
      · next h => exact moves_parseStructLiteral hp (by omega) (length_pos_of_head? h) name
      · next h =>
        refine moves_advance (length_pos_of_head? h) fun _ _ => ?_
        exact (moves_parseArgumentList hp (by omega)).bind fun _ _ _ _ => moves_anyhow
      · exact moves_anyhow

theorem moves_parseIdentifierExpr (hk : source.length ≤ k) :
    Moves (parseIdentifierExpr p) source (Shorter source) := by
  refine moves_skipWhitespace fun rest _ => moves_peek ?_
  split
  · next h =>
    have hpos := length_takeWhile_pos h
    refine moves_takeChars fun behind _ => ?_
    exact (moves_parseAfterName hp (by omega) _).shorter_of_lt (by omega)
  · exact moves_null

/-! ### Operands -/

theorem moves_parseOperand (hk : source.length ≤ k) :
    Moves (parseOperand p) source (Shorter source) := by
  refine moves_text ?_
  split
  · exact moves_syntaxError
  · refine moves_advance (by simp) fun rest hrest => ?_
    refine (hp.expression rest (by omega)).bind fun inner _ _ _ => ?_
    exact moves_skipWhitespace fun _ _ => moves_require fun _ _ => moves_shorter (by omega)
  · exact moves_parseStringLiteral hp hk (by simp)
  · split
    · exact moves_parseNumber
    · split
      · exact moves_parseArrayOrDict hp hk
      · split
        · exact moves_parseIdentifierExpr hp hk
        · exact moves_syntaxError

theorem moves_parsePrimary (hk : source.length ≤ k) :
    Moves (parsePrimary p) source (Shorter source) := by
  refine moves_skipWhitespace fun rest _ => moves_looksAtKeyword fun found hfound => ?_
  split
  · next h => exact moves_advance (hfound h) fun _ _ => moves_shorter (by omega)
  · refine moves_looksAtKeyword fun found hfound => ?_
    split
    · next h => exact moves_advance (hfound h) fun _ _ => moves_shorter (by omega)
    · refine moves_looksAtKeyword fun found hfound => ?_
      split
      · next h => exact moves_advance (hfound h) fun _ _ => moves_shorter (by omega)
      · exact (moves_parseOperand hp (by omega)).shorter_of_le (by omega)

theorem moves_parseMember (hk : source.length < k) (base : ASTExpr) (isOptionalChain : Bool) :
    Moves (parseMember p base isOptionalChain) source Anyhow := by
  refine moves_skipWhitespace fun rest _ => moves_peek ?_
  split
  · exact moves_syntaxError
  · refine moves_takeChars fun _ _ => moves_skipWhitespace fun _ _ => moves_peek ?_
    split
    · next h =>
      refine moves_advance (length_pos_of_beq h) fun _ _ => ?_
      exact (moves_parseArgumentList hp (by omega)).bind fun _ _ _ _ => moves_anyhow
    · exact moves_anyhow

/-- A turn of the loop of `parse_postfix` reads some of the text, or leaves the operand. -/
theorem moves_postfixTurn (hk : source.length ≤ k) (base : ASTExpr) :
    Moves (postfixTurn p base) source
      (Sum.elim (Shorter source) fun e _ => e = base) := by
  refine moves_skipWhitespace fun rest _ => moves_text ?_
  split
  · refine moves_advance (by simp) fun behind hbehind => ?_
    refine (hp.expression behind (by omega)).bind fun index _ _ _ => ?_
    refine moves_skipWhitespace fun _ _ => moves_require fun last _ => moves_pure ?_
    show last.length < source.length
    omega
  · refine moves_advance (by simp) fun behind hbehind => ?_
    refine (moves_parseMember hp (by omega) base true).bind fun e last _ _ => moves_pure ?_
    show last.length < source.length
    omega
  · refine moves_advance (by simp) fun behind hbehind => ?_
    refine (moves_parseMember hp (by omega) base false).bind fun e last _ _ => moves_pure ?_
    show last.length < source.length
    omega
  · exact moves_pure rfl

theorem postfixTurn_getsOn : GetsOn (postfixTurn p) (k + 1) := by
  intro base source hk
  refine (moves_postfixTurn hp (by omega) base).conseq fun next rest _ hpost => ?_
  cases next with
  | inl e => exact hpost
  | inr e => trivial

/-- The loop has read some of the text where the operand is missing. -/
theorem moves_parsePostfix (hk : source.length ≤ k) (base : ASTExpr) :
    Moves (parsePostfix p base) source
      fun _ rest => rest.length < source.length ∨ base.isNull = false := by
  -- The invariant: nothing has been read, or the operand is still the same.
  have hloop : Moves (whileLoop (postfixTurn p) base) source
      fun e rest => rest.length < source.length ∨ e = base := by
    refine moves_whileLoop (I := fun e rest => rest.length < source.length ∨ e = base)
      (fun e rest hrest hI => ?_) (.inr rfl)
    refine (moves_postfixTurn hp (hrest.trans hk) e).conseq fun next left hleft hnext => ?_
    cases next with
    | inl e' => exact ⟨hnext, .inl (lt_of_lt_of_le hnext hrest)⟩
    | inr e' =>
      obtain rfl : e' = e := hnext
      exact hI.imp_left (lt_of_le_of_lt hleft)
  refine hloop.bind fun e rest _ hpost => ?_
  split
  · exact moves_null
  · next h =>
    refine moves_pure (hpost.imp_right ?_)
    rintro rfl
    simpa using h

theorem moves_parseUnary (hk : source.length ≤ k) :
    Moves (parseUnary p) source (Shorter source) := by
  refine moves_skipWhitespace fun rest hrest => moves_peek ?_
  split
  · next h =>
    refine moves_advance (length_pos_of_head? h) fun behind _ => ?_
    exact (hp.unary behind (by omega)).bind fun _ _ _ _ => moves_shorter (by omega)
  · next h =>
    refine moves_advance (length_pos_of_head? h) fun behind _ => ?_
    exact (hp.unary behind (by omega)).bind fun _ _ _ _ => moves_shorter (by omega)
  · refine (moves_parsePrimary hp (hrest.trans hk)).testNull.bind fun base behind hle hbase => ?_
    cases base with
    | none =>
      refine (moves_parsePostfix hp (by omega) .null).conseq fun e last hlast hpost => ?_
      rcases hpost with hlt | hnull
      · exact lt_of_lt_of_le hlt (hle.trans hrest)
      · cases hnull
    | some base =>
      have hlt : behind.length < rest.length := hbase base rfl
      exact (moves_parsePostfix hp (by omega) base).shorter_of_lt (by omega)

/-! ### Operators -/

/-- An operator that is found is in the text. -/
def InText (operator : List Char → Option (Char × ℕ)) : Prop :=
  ∀ source op length, operator source = some (op, length) → 0 < length ∧ length ≤ source.length

omit hp in
theorem inText_factorOperator : InText factorOperator := by
  intro source op length h
  unfold factorOperator at h
  split at h
  all_goals cases h
  all_goals simp

omit hp in
theorem inText_termOperator : InText termOperator := by
  intro source op length h
  unfold termOperator at h
  split at h
  all_goals cases h
  all_goals simp

omit hp in
theorem inText_comparisonOperator : InText comparisonOperator := by
  intro source op length h
  unfold comparisonOperator at h
  split at h
  all_goals cases h
  all_goals simp

omit hp in
theorem inText_andOperator : InText andOperator := by
  intro source op length h
  unfold andOperator at h
  split at h
  all_goals cases h
  all_goals simp

omit hp in
theorem inText_orOperator : InText orOperator := by
  intro source op length h
  unfold orOperator at h
  split at h
  all_goals cases h
  all_goals simp

section LeftAssociative

omit hp

variable {operator : List Char → Option (Char × ℕ)} {operand : Parse ASTExpr}
  (hoperator : InText operator)
  (hoperand : ∀ source, source.length ≤ k → Moves operand source (Shorter source))
include hoperator hoperand

theorem operatorTurn_getsOn : GetsOn (operatorTurn operator operand) (k + 1) := by
  intro left source hk
  refine moves_text ?_
  split
  · next op length h =>
    obtain ⟨hpos, hle⟩ := hoperator source op length h
    refine moves_advance hle fun rest hrest => ?_
    refine (hoperand rest (by omega)).bind fun right _ _ _ => ?_
    exact moves_skipWhitespace fun _ _ => moves_next (by omega)
  · exact moves_last

theorem moves_leftAssociative (hk : source.length ≤ k) :
    Moves (parseLeftAssociative operator operand) source (Shorter source) := by
  refine (hoperand source hk).bind fun left rest _ hlt => ?_
  have hshort : rest.length < source.length := hlt
  refine moves_skipWhitespace fun behind hbehind => ?_
  exact ((operatorTurn_getsOn hoperator hoperand).whileLoop (by omega)).shorter_of_lt (by omega)

end LeftAssociative

theorem moves_parseFactor (hk : source.length ≤ k) :
    Moves (parseFactor p) source (Shorter source) :=
  moves_leftAssociative inText_factorOperator (fun _ => moves_parseUnary hp) hk

theorem moves_parseTerm (hk : source.length ≤ k) :
    Moves (parseTerm p) source (Shorter source) :=
  moves_leftAssociative inText_termOperator (fun _ => moves_parseFactor hp) hk

theorem moves_parseComparison (hk : source.length ≤ k) :
    Moves (parseComparison p) source (Shorter source) := by
  refine (moves_parseTerm hp hk).bind fun left rest _ hlt => ?_
  have hshort : rest.length < source.length := hlt
  refine moves_skipWhitespace fun behind _ => moves_text ?_
  split
  · next op length h =>
    obtain ⟨-, hle⟩ := inText_comparisonOperator behind op length h
    refine moves_advance hle fun last _ => ?_
    exact (moves_parseTerm hp (by omega)).bind fun _ _ _ _ => moves_shorter (by omega)
  · exact moves_shorter (by omega)

theorem moves_parseLogicalAnd (hk : source.length ≤ k) :
    Moves (parseLogicalAnd p) source (Shorter source) :=
  moves_leftAssociative inText_andOperator (fun _ => moves_parseComparison hp) hk

theorem moves_parseLogicalOr (hk : source.length ≤ k) :
    Moves (parseLogicalOr p) source (Shorter source) :=
  moves_leftAssociative inText_orOperator (fun _ => moves_parseLogicalAnd hp) hk

/-! ### Whole expressions -/

theorem moves_parseWholeExpression (hk : source.length ≤ k) :
    Moves (parseWholeExpression p) source (Shorter source) := by
  refine (moves_parseLogicalOr hp hk).bind fun e rest _ hlt => ?_
  have hshort : rest.length < source.length := hlt
  refine moves_skipWhitespace fun behind _ => moves_text ?_
  split
  · exact moves_shorter (by omega)
  · exact moves_setError moves_null

omit hp in
theorem length_trimSpace_le (text : List Char) : (trimSpace text).length ≤ text.length := by
  unfold trimSpace
  refine (List.dropWhile_suffix _).length_le.trans ?_
  rw [List.length_reverse]
  exact ((List.dropWhile_suffix _).length_le).trans (by rw [List.length_reverse])

/-- An expression that is read has characters. -/
theorem moves_parseExpressionStr (hk : source.length ≤ k) :
    Moves (parseExpressionStr p) source (Shorter source) := by
  refine moves_text ?_
  have hextent := extentLength_le .start source
  refine moves_advance hextent fun rest hrest => ?_
  have htrim := length_trimSpace_le (source.take (extentLength .start source))
  have htake : (source.take (extentLength .start source)).length = extentLength .start source := by
    rw [List.length_take, min_eq_left hextent]
  refine (moves_parseWholeExpression hp (by omega)).onText.conseq ?_
  rintro e left - ⟨rfl, behind, hlt⟩
  have hshort : behind.length < (trimSpace (source.take (extentLength .start source))).length := hlt
  show left.length < source.length
  omega

end Expressions

end BreadLang
