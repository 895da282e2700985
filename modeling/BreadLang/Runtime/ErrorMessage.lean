import BreadLang.Core.Value
import BreadLang.Library.Decimal

/-!
# The text of an error

`bread_error_format_message` with its buffer.  The text is written piece by piece by calls of
`snprintf` behind the position `pos`, which is an `int`.  The size of the buffer is computed
before, and is enough for every error; the position itself overflows when the text is longer
than an `int` can say.
-/

namespace BreadLang

open Decimal

/-- `BreadError`, with all its members; the texts are null or C strings. -/
structure BreadErrorRecord where
  type : BreadErrorType
  message : Option BreadString
  filename : Option BreadString
  line : ℤ
  column : ℤ
  context : Option BreadString
  line_mem : intMin ≤ line ∧ line ≤ intMax
  column_mem : intMin ≤ column ∧ column ≤ intMax

/-- `bread_error_type_to_string`. -/
def BreadErrorType.errorText : BreadErrorType → BreadString
  | .none => "No Error".toList
  | .typeMismatch => "Type Mismatch".toList
  | .indexOutOfBounds => "Index Out of Bounds".toList
  | .divisionByZero => "Division by Zero".toList
  | .undefinedVariable => "Undefined Variable".toList
  | .memoryAllocation => "Memory Allocation Error".toList
  | .runtimeError => "Runtime Error".toList
  | .syntaxError => "Syntax Error".toList
  | .parseError => "Parse Error".toList
  | .compileError => "Compile Error".toList

/-- `strlen`, of a text that may be null and is then not counted. -/
def textLength (s : Option BreadString) : ℕ :=
  s.elim 0 fun s => (cString s).length

/-- The buffer: the text in it and the position in `pos`. -/
structure Formatted where
  text : BreadString
  pos : ℤ

/-- The difference of two `size_t`. -/
def sizeSub (size : ℕ) (pos : ℤ) : ℤ :=
  if pos ≤ size then size - pos else size - pos + 2 ^ 64

/-- `pos += snprintf(formatted + pos, size - pos, ...)` for a piece of text.  `snprintf` writes
as much of the piece as there is room for with its terminator, and returns the length of the
whole piece; a length that is no `int` has no return value. -/
def appendText (size : ℕ) (st : Formatted) (piece : BreadString) : Exec Formatted := do
  let room := sizeSub size st.pos
  let written := piece.take (room.toNat - 1)
  if st.pos < 0 ∨ 0 < room ∧ (size : ℤ) < st.pos + written.length + 1 then
    .error (.undefined .outOfBounds)
  else
    let n ← checkedInt piece.length
    let pos ← checkedInt (st.pos + n)
    -- behind an earlier terminator nothing is seen
    let text := if 0 < room ∧ st.pos ≤ st.text.length then
      st.text.take st.pos.toNat ++ written else st.text
    return ⟨text, pos⟩

namespace BreadErrorRecord

/-- The size of the buffer. -/
def size (e : BreadErrorRecord) : ℕ :=
  256 + textLength e.message + textLength e.filename + textLength e.context +
    if 0 < e.column then e.column.toNat + 8 else 0

/-- The file, the line and the column. -/
def formatPlace (e : BreadErrorRecord) (st : Formatted) : Exec Formatted :=
  match e.filename with
  | none => return st
  | some file =>
      if 0 < e.line then do
        let st ← appendText e.size st (" at ".toList ++ cString file ++ ":".toList ++ text e.line)
        if 0 < e.column then appendText e.size st (":".toList ++ text e.column) else return st
      else return st

/-- The message. -/
def formatText (e : BreadErrorRecord) (st : Formatted) : Exec Formatted :=
  match e.message with
  | none => return st
  | some message => appendText e.size st (": ".toList ++ cString message)

/-- The loop that writes the blanks in front of the caret. -/
def formatBlanks (size : ℕ) : ℕ → Formatted → Exec Formatted
  | 0, st => return st
  | n + 1, st => do formatBlanks size n (← appendText size st [' '])

/-- The context and the caret. -/
def formatContext (e : BreadErrorRecord) (st : Formatted) : Exec Formatted :=
  match e.context with
  | none => return st
  | some context => do
      let st ← appendText e.size st ("\nContext: ".toList ++ cString context)
      if 0 < e.column then
        let st ← appendText e.size st ['\n']
        let st ← formatBlanks e.size (e.column.toNat - 1) st
        appendText e.size st ['^']
      else return st

/-- `bread_error_format_message`; `none` is the null pointer. -/
def formatMessage (e : BreadErrorRecord) : Exec (Option BreadString) :=
  if e.type = .none then .ok none
  else do
    let st ← appendText e.size ⟨[], 0⟩ e.type.errorText
    let st ← e.formatPlace st
    let st ← e.formatText st
    let st ← e.formatContext st
    return some st.text

/-! ## The pieces -/

/-- The pieces for the file, the line and the column. -/
def placeParts (e : BreadErrorRecord) : List BreadString :=
  e.filename.elim [] fun file =>
    if 0 < e.line then
      (" at ".toList ++ cString file ++ ":".toList ++ text e.line) ::
        if 0 < e.column then [":".toList ++ text e.column] else []
    else []

/-- The piece for the message. -/
def messageParts (e : BreadErrorRecord) : List BreadString :=
  e.message.elim [] fun message => [": ".toList ++ cString message]

/-- The line with the caret. -/
def caretParts (e : BreadErrorRecord) : List BreadString :=
  ['\n'] :: (List.replicate (e.column.toNat - 1) [' '] ++ [['^']])

/-- The pieces for the context and the caret. -/
def contextParts (e : BreadErrorRecord) : List BreadString :=
  e.context.elim [] fun context =>
    ("\nContext: ".toList ++ cString context) :: if 0 < e.column then e.caretParts else []

/-- The pieces of text that the calls of `snprintf` write, in their order. -/
def parts (e : BreadErrorRecord) : List BreadString :=
  e.type.errorText :: (e.placeParts ++ e.messageParts ++ e.contextParts)

variable {e : BreadErrorRecord} {st : Formatted}

theorem formatPlace_eq : e.formatPlace st = e.placeParts.foldlM (appendText e.size) st := by
  unfold formatPlace placeParts
  cases e.filename with
  | none => rfl
  | some file =>
    by_cases hline : 0 < e.line <;> by_cases hcol : 0 < e.column <;>
      simp [hline, hcol]

theorem formatText_eq : e.formatText st = e.messageParts.foldlM (appendText e.size) st := by
  unfold formatText messageParts
  cases e.message with
  | none => rfl
  | some message => simp

theorem formatBlanks_eq {size n : ℕ} :
    formatBlanks size n st = (List.replicate n [' ']).foldlM (appendText size) st := by
  induction n generalizing st with
  | zero => rfl
  | succ n ih =>
    rw [formatBlanks, List.replicate_succ, List.foldlM_cons]
    congr 1
    funext st'
    exact ih

theorem formatContext_eq :
    e.formatContext st = e.contextParts.foldlM (appendText e.size) st := by
  unfold formatContext contextParts
  cases e.context with
  | none => rfl
  | some context =>
    by_cases hcol : 0 < e.column <;>
      simp [hcol, caretParts, formatBlanks_eq, List.foldlM_append]

/-- **The text is what the calls of `snprintf` write one after the other.** -/
theorem formatMessage_eq (h : e.type ≠ .none) : e.formatMessage =
    (fun st => some st.text) <$> e.parts.foldlM (appendText e.size) ⟨[], 0⟩ := by
  rw [formatMessage, if_neg h, parts, List.foldlM_cons]
  simp only [formatPlace_eq, formatText_eq, formatContext_eq, List.foldlM_append, map_bind,
    bind_assoc]
  rfl

/-! ## Appending -/

/-- A piece that fits, with its terminator, is appended as a whole. -/
theorem appendText_of_fits {size : ℕ} {piece : BreadString} (hpos : st.pos = st.text.length)
    (hsize : st.text.length + piece.length < size)
    (hint : (st.text.length + piece.length : ℤ) ≤ intMax) :
    appendText size st piece =
      .ok ⟨st.text ++ piece, (st.text.length + piece.length : ℕ)⟩ := by
  have hroom : sizeSub size st.pos = size - st.text.length := by
    rw [sizeSub, hpos, if_pos (by omega)]
  have hwritten : piece.take ((sizeSub size st.pos).toNat - 1) = piece := by
    rw [hroom, List.take_of_length_le]
    omega
  have hbounds : ¬ (st.pos < 0 ∨ 0 < sizeSub size st.pos ∧
      (size : ℤ) < st.pos + piece.length + 1) := by
    rw [hroom, hpos]
    omega
  have hpiece : checkedInt piece.length = .ok piece.length :=
    checkedInt_of_mem ⟨by rw [intMin]; omega, by omega⟩
  have hnext : checkedInt (st.pos + piece.length) = .ok (st.pos + piece.length) :=
    checkedInt_of_mem ⟨by rw [intMin, hpos]; omega, by rw [hpos]; exact hint⟩
  have htext : 0 < sizeSub size st.pos ∧ st.pos ≤ st.text.length := by
    rw [hroom, hpos]
    omega
  simp only [appendText, hwritten, if_neg hbounds, hpiece, hnext, if_pos htext, bind, Except.bind,
    pure, Except.pure]
  rw [hpos, Int.toNat_natCast, List.take_length]
  simp

theorem eq_of_checkedInt {x y : ℤ} (h : checkedInt x = .ok y) : y = x ∧ y ≤ intMax := by
  unfold checkedInt at h
  split at h
  · next hmem =>
    obtain rfl := Except.ok.inj h
    exact ⟨rfl, hmem.2⟩
  · exact absurd h (by simp)

/-- Where a piece is appended, the position is an `int` and moves by its length. -/
theorem pos_of_appendText {size : ℕ} {piece : BreadString} {st' : Formatted}
    (h : appendText size st piece = .ok st') :
    st'.pos = st.pos + piece.length ∧ st'.pos ≤ intMax := by
  unfold appendText at h
  dsimp only at h
  split at h
  · exact absurd h (by simp)
  · obtain ⟨n, hn, h⟩ := bind_eq_ok.mp h
    obtain ⟨pos, hpos, h⟩ := bind_eq_ok.mp h
    obtain rfl := Except.ok.inj h
    obtain ⟨rfl, -⟩ := eq_of_checkedInt hn
    exact eq_of_checkedInt hpos

/-- **Pieces that fit together are appended as a whole.** -/
theorem foldlM_appendText {size : ℕ} {pieces : List BreadString}
    (hpos : st.pos = st.text.length) (hsize : st.text.length + pieces.flatten.length < size)
    (hint : (st.text.length + pieces.flatten.length : ℤ) ≤ intMax) :
    pieces.foldlM (appendText size) st =
      .ok ⟨st.text ++ pieces.flatten, (st.text.length + pieces.flatten.length : ℕ)⟩ := by
  induction pieces generalizing st with
  | nil =>
    obtain ⟨text, pos⟩ := st
    obtain rfl : pos = text.length := hpos
    simp [pure, Except.pure]
  | cons piece pieces ih =>
    rw [List.flatten_cons, List.length_append] at hsize hint
    push_cast at hint
    rw [List.foldlM_cons, appendText_of_fits hpos (by omega) (by omega)]
    show pieces.foldlM (appendText size) _ = _
    rw [ih (by simp) (by simp only [List.length_append]; omega)
      (by simp only [List.length_append]; push_cast; omega)]
    simp [Nat.add_assoc]

/-- Where pieces are appended, the position moves by their lengths, and is an `int`. -/
theorem pos_of_foldlM {size : ℕ} {pieces : List BreadString} {st' : Formatted}
    (h : pieces.foldlM (appendText size) st = .ok st') :
    st'.pos = st.pos + pieces.flatten.length ∧ (pieces ≠ [] → st'.pos ≤ intMax) := by
  induction pieces generalizing st with
  | nil =>
    obtain rfl := Except.ok.inj h
    simp
  | cons piece pieces ih =>
    rw [List.foldlM_cons] at h
    obtain ⟨st₁, hpiece, hrest⟩ := bind_eq_ok.mp h
    obtain ⟨hpos₁, hint₁⟩ := pos_of_appendText hpiece
    obtain ⟨hpos, hint⟩ := ih hrest
    refine ⟨?_, fun _ => ?_⟩
    · rw [hpos, hpos₁, List.flatten_cons, List.length_append]
      push_cast
      omega
    · cases pieces with
      | nil =>
        obtain rfl := Except.ok.inj hrest
        exact hint₁
      | cons _ _ => exact hint (List.cons_ne_nil _ _)

/-! ## The size -/

/-- The length of the whole text. -/
def formattedLength (e : BreadErrorRecord) : ℕ :=
  e.type.errorText.length +
  (e.filename.elim 0 fun file =>
    if 0 < e.line then
      5 + (cString file).length + (text e.line).length +
        if 0 < e.column then 1 + (text e.column).length else 0
    else 0) +
  (e.message.elim 0 fun message => 2 + (cString message).length) +
  e.context.elim 0 fun context =>
    10 + (cString context).length + if 0 < e.column then e.column.toNat + 1 else 0

theorem length_placeParts : e.placeParts.flatten.length = e.filename.elim 0 fun file =>
    if 0 < e.line then
      5 + (cString file).length + (text e.line).length +
        if 0 < e.column then 1 + (text e.column).length else 0
    else 0 := by
  unfold placeParts
  cases e.filename with
  | none => rfl
  | some file =>
    by_cases hline : 0 < e.line <;> by_cases hcol : 0 < e.column <;> simp [hline, hcol] <;> omega

theorem length_messageParts : e.messageParts.flatten.length =
    e.message.elim 0 fun message => 2 + (cString message).length := by
  unfold messageParts
  cases e.message with
  | none => rfl
  | some message =>
    simp
    omega

/-- The line with the caret has it at the column. -/
theorem flatten_caretParts :
    e.caretParts.flatten = '\n' :: (List.replicate (e.column.toNat - 1) ' ' ++ ['^']) := by
  simp [caretParts]

theorem length_contextParts : e.contextParts.flatten.length = e.context.elim 0 fun context =>
    10 + (cString context).length + if 0 < e.column then e.column.toNat + 1 else 0 := by
  unfold contextParts
  cases e.context with
  | none => rfl
  | some context =>
    by_cases hcol : 0 < e.column
    · simp [hcol, flatten_caretParts]
      omega
    · simp [hcol]
      omega

theorem length_flatten_parts : e.parts.flatten.length = e.formattedLength := by
  rw [parts, List.flatten_cons, List.flatten_append, List.flatten_append, List.length_append,
    List.length_append, List.length_append, length_placeParts, length_messageParts,
    length_contextParts, formattedLength]
  omega

theorem length_errorText_le (type : BreadErrorType) : type.errorText.length ≤ 23 := by
  cases type <;> decide

theorem length_text_int_le {n : ℤ} (h : intMin ≤ n ∧ n ≤ intMax) : (text n).length ≤ 11 := by
  apply length_text_le (k := 10) (by decide)
  unfold intMin intMax at h
  omega

/-- **The buffer is large enough for every error.** -/
theorem formattedLength_lt_size (e : BreadErrorRecord) : e.formattedLength < e.size := by
  have htype := length_errorText_le e.type
  have hline := length_text_int_le e.line_mem
  have hcolumn := length_text_int_le e.column_mem
  unfold formattedLength size textLength
  cases e.filename <;> cases e.message <;> cases e.context <;> simp only [Option.elim] <;>
    split_ifs <;> omega

/-! ## Safety -/

/-- The text is written inside of its buffer: after every call of `snprintf` the position is
below the size, the text is all of its pieces, and the caret is in its column. -/
structure FormatsSafely (e : BreadErrorRecord) : Prop where
  pos_lt : ∀ calls, calls <+: e.parts → ∀ st,
    calls.foldlM (appendText e.size) ⟨[], 0⟩ = .ok st → st.pos ≤ (e.size : ℤ) - 1
  complete : e.formatMessage = .ok (if e.type = .none then none else some e.parts.flatten)
  caret : e.type ≠ .none → e.context ≠ none → 0 < e.column → ∃ before,
    e.formatMessage =
      .ok (some (before ++ '\n' :: (List.replicate (e.column.toNat - 1) ' ' ++ ['^'])))

/-- The calls that have been made have written a part of the text. -/
theorem pos_lt_size {calls : List BreadString} (hcalls : calls <+: e.parts)
    (h : calls.foldlM (appendText e.size) ⟨[], 0⟩ = .ok st) : st.pos ≤ (e.size : ℤ) - 1 := by
  obtain ⟨rest, hrest⟩ := hcalls
  have hlength := e.length_flatten_parts
  rw [← hrest, List.flatten_append, List.length_append] at hlength
  have hsize := e.formattedLength_lt_size
  obtain ⟨hpos, -⟩ := pos_of_foldlM h
  rw [hpos]
  show (0 : ℤ) + _ ≤ _
  omega

theorem formatMessage_of_le (htype : e.type ≠ .none) (h : (e.formattedLength : ℤ) ≤ intMax) :
    e.formatMessage = .ok (some e.parts.flatten) := by
  have hsize := e.formattedLength_lt_size
  have hlength := e.length_flatten_parts
  rw [formatMessage_eq htype, foldlM_appendText rfl
    (by show 0 + _ < _; omega) (by show (0 : ℤ) + _ ≤ _; omega)]
  rfl

/-- A text that is returned as a whole has a length that is an `int`. -/
theorem formattedLength_le_of_complete (htype : e.type ≠ .none) {s : Option BreadString}
    (h : e.formatMessage = .ok s) : (e.formattedLength : ℤ) ≤ intMax := by
  rw [formatMessage_eq htype] at h
  obtain ⟨st, hst, -⟩ := map_eq_ok.mp h
  obtain ⟨hpos, hint⟩ := pos_of_foldlM hst
  have hle := hint (List.cons_ne_nil _ _)
  rw [hpos, length_flatten_parts] at hle
  simpa using hle

/-- The text ends in the line with the caret. -/
theorem exists_flatten_parts (hcontext : e.context ≠ none) (hcolumn : 0 < e.column) :
    ∃ before, e.parts.flatten =
      before ++ '\n' :: (List.replicate (e.column.toNat - 1) ' ' ++ ['^']) := by
  obtain ⟨context, h⟩ := Option.ne_none_iff_exists'.mp hcontext
  refine ⟨(e.type.errorText :: (e.placeParts ++ e.messageParts)).flatten ++
    ("\nContext: ".toList ++ cString context), ?_⟩
  rw [← flatten_caretParts, parts, contextParts, h, Option.elim, if_pos hcolumn]
  simp

/-- **The text of an error is written safely and completely exactly when its length is an
`int`** (or there is no error). -/
theorem formatsSafely_iff (e : BreadErrorRecord) :
    e.FormatsSafely ↔ e.type = .none ∨ (e.formattedLength : ℤ) ≤ intMax := by
  constructor
  · intro h
    by_cases htype : e.type = .none
    · exact .inl htype
    · exact .inr (formattedLength_le_of_complete htype h.complete)
  · intro h
    refine ⟨fun calls hcalls st => pos_lt_size hcalls, ?_, ?_⟩
    · by_cases htype : e.type = .none
      · rw [formatMessage, if_pos htype, if_pos htype]
      · rw [formatMessage_of_le htype (h.resolve_left htype), if_neg htype]
    · intro htype hcontext hcolumn
      obtain ⟨before, hbefore⟩ := exists_flatten_parts hcontext hcolumn
      exact ⟨before, by rw [formatMessage_of_le htype (h.resolve_left htype), hbefore]⟩

/-- An error in the last column that an `int` can say. -/
def lastColumn : BreadErrorRecord where
  type := .compileError
  message := none
  filename := none
  line := 0
  column := 2147483647
  context := some []
  line_mem := by decide
  column_mem := by decide

/-- The blanks in front of the caret are more than the position can count. -/
theorem lastColumn_not_safe : ¬ lastColumn.FormatsSafely := by
  intro h
  have htype : lastColumn.type ≠ .none := by decide
  exact absurd (formattedLength_le_of_complete htype h.complete) (by decide)

end BreadErrorRecord

end BreadLang
