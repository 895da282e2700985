import BreadLang.Compiler.Advancing
import BreadLang.Compiler.Reading
import BreadLang.Library.Refinement

/-!
# The buffer of a string literal

`parse_string_literal` with the buffer that it allocates.  A turn of its loop makes sure that
two more bytes fit, which is enough for every escape sequence and for the terminator before an
interpolation.  The terminator at the end of the literal is written without a test, so it is
outside of the buffer where the last escape sequence has filled it.
-/

namespace BreadLang

open Stateful Parse

/-! ### The buffer -/

/-- `INITIAL_STRING_CAPACITY`. -/
def initialStringCapacity : ℕ := 64

/-- The buffer and the bytes that have been written; its capacity is doubled when it has to
grow. -/
structure StringBuffer where
  capacity : ℕ
  bytes : BreadString
  fits : bytes.length ≤ capacity
  grown : ∃ k, capacity = initialStringCapacity * 2 ^ k

namespace StringBuffer

/-- The buffer at the start. -/
def initial : StringBuffer where
  capacity := initialStringCapacity
  bytes := []
  fits := Nat.zero_le _
  grown := ⟨0, rfl⟩

/-- The test at the start of a turn. -/
def grow (b : StringBuffer) : StringBuffer :=
  if b.bytes.length + 2 > b.capacity then
    { capacity := b.capacity * 2
      bytes := b.bytes
      fits := b.fits.trans (Nat.le_mul_of_pos_right _ (by decide))
      grown := by
        obtain ⟨k, hk⟩ := b.grown
        exact ⟨k + 1, by rw [hk, pow_succ, Nat.mul_assoc]⟩ }
  else b

/-- The length is reset. -/
def clear (b : StringBuffer) : StringBuffer where
  capacity := b.capacity
  bytes := []
  fits := Nat.zero_le _
  grown := b.grown

end StringBuffer

/-- Why the function has no result: a failure of the parser, or a write outside of the
buffer. -/
inductive BufferFail where
  | parse (fail : ParseFail)
  | overrun

/-- The parser with a buffer. -/
abbrev Buffered := Stateful ParseState BufferFail

/-- A function of the parser that does not use the buffer. -/
def onParser {α : Type} (m : Parse α) : Buffered α :=
  ExceptT.mk fun s =>
    match m.run.run s with
    | (r, t) => (r.mapError .parse, t)

/-- `buffer[length++] = c`. -/
def writeByte (b : StringBuffer) (c : Char) : Buffered StringBuffer :=
  if h : b.bytes.length < b.capacity then
    return { capacity := b.capacity
             bytes := b.bytes ++ [c]
             fits := by rw [List.length_append]; exact h
             grown := b.grown }
  else throw .overrun

/-- `buffer[length] = '\0'`. -/
def writeTerminator (b : StringBuffer) : Buffered Unit :=
  if b.bytes.length < b.capacity then return () else throw .overrun

/-- The bytes of a piece of the literal, one after the other. -/
def writeBytes (b : StringBuffer) (cs : List Char) : Buffered StringBuffer :=
  cs.foldlM writeByte b

/-- The buffer becomes a piece of the result, if it is not empty. -/
def flushBuffer (b : StringBuffer) (result : Option ASTExpr) : Buffered (Option ASTExpr) := do
  if b.bytes.isEmpty then return result
  else
    writeTerminator b
    return some (concatenate result (.stringLiteral b.bytes))

/-- A turn of the loop of `parse_string_literal`. -/
def bufferedTurn (p : Parser) (s : StringBuffer × Option ASTExpr) :
    Buffered ((StringBuffer × Option ASTExpr) ⊕ (StringBuffer × Option ASTExpr)) := do
  match ← onParser text with
  | [] => return .inr s
  | '"' :: _ => return .inr s
  | '\\' :: '(' :: _ =>
      let result ← flushBuffer s.1.grow s.2
      let result ← onParser (parseInterpolation p result)
      return .inl (s.1.grow.clear, some result)
  | '\\' :: c :: _ =>
      let b ← writeBytes s.1.grow (unescape c)
      onParser (advance 2)
      return .inl (b, s.2)
  | c :: _ =>
      let b ← writeBytes s.1.grow [c]
      onParser (advance 1)
      return .inl (b, s.2)

/-- The end of `parse_string_literal`: the last segment. -/
def finishLiteral (b : StringBuffer) : Option ASTExpr → Buffered ASTExpr
  | none => do
      writeTerminator b
      return .stringLiteral b.bytes
  | some e => do
      return (← flushBuffer b (some e)).getD e

/-- `parse_string_literal`, with its buffer. -/
def bufferedStringLiteral (p : Parser) : Buffered ASTExpr := do
  onParser (advance 1)
  let source ← onParser text
  let (b, result) ← loop (.parse .diverges) (bufferedTurn p) (source.length + 1) (.initial, none)
  onParser (require '"' "Unterminated string literal")
  finishLiteral b result

/-! ### Writes -/

section Writes

variable {α : Type} {m : Parse α} {s t : ParseState} {a : α}

theorem result_onParser (m : Parse α) (s : ParseState) :
    (onParser m).result s = (m.result s).mapError .parse := rfl

theorem endsIn_onParser : EndsIn (onParser m) s a t ↔ EndsIn m s a t := by
  rw [EndsIn, EndsIn, result_onParser]
  refine and_congr_left' ?_
  cases m.result s with
  | ok b => exact ⟨fun h => congrArg _ (Except.ok.inj h), fun h => congrArg _ (Except.ok.inj h)⟩
  | error e => exact ⟨fun h => (by cases h), fun h => (by cases h)⟩

theorem onParser_ne_overrun (m : Parse α) (s : ParseState) :
    (onParser m).result s ≠ .error .overrun := by
  rw [result_onParser]
  intro h
  cases hr : m.result s <;> rw [hr] at h <;> cases h

namespace StringBuffer

variable (b : StringBuffer)

theorem grow_bytes : b.grow.bytes = b.bytes := by
  unfold grow
  split <;> rfl

/-- The capacity at the start of a turn. -/
theorem grow_capacity :
    b.grow.capacity = if b.bytes.length + 2 > b.capacity then b.capacity * 2 else b.capacity := by
  unfold grow
  split <;> rfl

theorem capacity_ge : initialStringCapacity ≤ b.capacity := by
  obtain ⟨k, hk⟩ := b.grown
  rw [hk]
  exact Nat.le_mul_of_pos_right _ (Nat.two_pow_pos k)

/-- Two more bytes fit. -/
theorem grow_fits : b.grow.bytes.length + 2 ≤ b.grow.capacity := by
  have hfits := b.fits
  have hge := b.capacity_ge
  rw [initialStringCapacity] at hge
  rw [grow_bytes, grow_capacity]
  split <;> omega

/-- More bytes in the buffer. -/
def append (b : StringBuffer) (cs : List Char) (h : b.bytes.length + cs.length ≤ b.capacity) :
    StringBuffer where
  capacity := b.capacity
  bytes := b.bytes ++ cs
  fits := by rwa [List.length_append]
  grown := b.grown

end StringBuffer

theorem writeBytes_eq (cs : List Char) (b : StringBuffer)
    (h : b.bytes.length + cs.length ≤ b.capacity) : writeBytes b cs = pure (b.append cs h) := by
  induction cs generalizing b with
  | nil =>
      obtain ⟨capacity, bytes, fits, grown⟩ := b
      simp only [writeBytes, List.foldlM_nil, StringBuffer.append, List.append_nil]
  | cons c cs ih =>
      have hlt : b.bytes.length < b.capacity := by
        rw [List.length_cons] at h
        omega
      have hrest : (b.append [c] hlt).bytes.length + cs.length ≤ b.capacity := by
        rw [StringBuffer.append, List.length_append, List.length_singleton]
        rw [List.length_cons] at h
        omega
      have hwrite : writeByte b c = pure (b.append [c] hlt) := by
        rw [writeByte, dif_pos hlt]
        rfl
      rw [writeBytes, List.foldlM_cons, hwrite, pure_bind]
      refine (ih _ hrest).trans (congrArg pure ?_)
      simp only [StringBuffer.append, List.append_assoc, List.singleton_append]

theorem writeTerminator_eq {b : StringBuffer} (h : b.bytes.length < b.capacity) :
    writeTerminator b = pure () :=
  if_pos h

/-- The terminator in front of an interpolation fits. -/
theorem flushBuffer_eq {b : StringBuffer} (h : b.bytes.length < b.capacity)
    (result : Option ASTExpr) : flushBuffer b result = pure (flushSegment b.bytes result) := by
  rw [flushBuffer, flushSegment, writeTerminator_eq h]
  split <;> rfl

theorem unescape_length (c : Char) :
    (unescape c).length = 1 ∨ (unescape c).length = 2 := by
  unfold unescape
  split <;> first | exact .inl rfl | exact .inr rfl

end Writes

/-- The node that `parse_string_literal` returns, without a buffer. -/
def finishSegments (segment : BreadString) : Option ASTExpr → ASTExpr
  | none => .stringLiteral segment
  | some e => (flushSegment segment (some e)).getD e

theorem finishLiteral_eq {b : StringBuffer} (h : b.bytes.length < b.capacity)
    (result : Option ASTExpr) : finishLiteral b result = pure (finishSegments b.bytes result) := by
  cases result with
  | none =>
      rw [finishLiteral, writeTerminator_eq h]
      rfl
  | some e =>
      rw [finishLiteral, flushBuffer_eq h]
      rfl

/-! ### The pieces of a literal -/

/-- What a turn of the loop reads: a character or an escape sequence of one byte, an escape
sequence that is kept with its backslash, or an interpolation. -/
inductive LiteralPiece where
  | byte
  | pair
  | interpolation
  deriving DecidableEq

/-- The length of the segment behind a piece. -/
def LiteralPiece.after (length : ℕ) : LiteralPiece → ℕ
  | .byte => length + 1
  | .pair => length + 2
  | .interpolation => 0

/-- The piece of an escape sequence. -/
def escapePiece (c : Char) : LiteralPiece :=
  if (unescape c).length = 2 then .pair else .byte

/-- The length of the last segment, behind a segment with `length` bytes. -/
def segmentLength (length : ℕ) (pieces : List LiteralPiece) : ℕ :=
  pieces.foldl LiteralPiece.after length

/-- **The literal is closed**: the text at `s` is that of the pieces, and then there is a quote. -/
inductive Closes (p : Parser) : ParseState → List LiteralPiece → Prop
  | quote {s : ParseState} {u : List Char} (h : s.rest = '"' :: u) : Closes p s []
  | byte {s : ParseState} {c : Char} {u : List Char} {pieces : List LiteralPiece}
      (h : s.rest = c :: u) (hquote : c ≠ '"') (hslash : c ≠ '\\')
      (hc : Closes p { s with rest := u } pieces) : Closes p s (.byte :: pieces)
  | escape {s : ParseState} {c : Char} {u : List Char} {pieces : List LiteralPiece}
      (h : s.rest = '\\' :: c :: u) (hparen : c ≠ '(')
      (hc : Closes p { s with rest := u } pieces) : Closes p s (escapePiece c :: pieces)
  | interpolation {s t : ParseState} {e : ASTExpr} {u v : List Char} {pieces : List LiteralPiece}
      (h : s.rest = '\\' :: '(' :: u) (he : EndsIn p.expression { s with rest := u } e t)
      (hparen : skipSpaceAndComments false t.rest = ')' :: v)
      (hc : Closes p { t with rest := v } pieces) : Closes p s (.interpolation :: pieces)

/-- **The pieces fill the buffer**: the last segment has as many bytes as a buffer that has been
doubled some times, the last of its pieces has two of them, and no segment before it has made
the buffer grow further. -/
structure FillsBuffer (pieces : List LiteralPiece) (k : ℕ) : Prop where
  full : segmentLength 0 pieces = initialStringCapacity * 2 ^ k
  pair : pieces.getLast? = some .pair
  before : ∀ before after, pieces = before ++ .interpolation :: after →
    segmentLength 0 before + 2 ≤ initialStringCapacity * 2 ^ k

/-! #### Lengths and capacities -/

/-- The capacity at the start of a turn. -/
def grownCapacity (capacity length : ℕ) : ℕ :=
  if length + 2 > capacity then capacity * 2 else capacity

/-- At the end, the segment is as long as the buffer. -/
def EndsFull : ℕ → ℕ → List LiteralPiece → Prop
  | capacity, length, [] => length = capacity
  | capacity, length, piece :: pieces =>
      EndsFull (grownCapacity capacity length) (piece.after length) pieces

/-- At the start of every turn two bytes are free, and at the end none is. -/
def FitsIn (limit : ℕ) : ℕ → List LiteralPiece → Prop
  | length, [] => length = limit
  | length, piece :: pieces => length + 2 ≤ limit ∧ FitsIn limit (piece.after length) pieces

section Lengths

variable {limit length capacity : ℕ} {pieces : List LiteralPiece}

theorem LiteralPiece.after_le (length : ℕ) (piece : LiteralPiece) :
    piece.after length ≤ length + 2 := by
  cases piece with
  | byte => exact Nat.le_succ _
  | pair => exact le_rfl
  | interpolation => exact Nat.zero_le _

/-- The capacity grows to the next power of two only. -/
theorem grownCapacity_le {j k : ℕ} (hle : initialStringCapacity * 2 ^ k ≤ initialStringCapacity * 2 ^ j)
    (hfits : length + 2 ≤ initialStringCapacity * 2 ^ j) :
    grownCapacity (initialStringCapacity * 2 ^ k) length ≤ initialStringCapacity * 2 ^ j := by
  rw [grownCapacity]
  split
  · rename_i hgrows
    have hlt : initialStringCapacity * 2 ^ k < initialStringCapacity * 2 ^ j := by omega
    have hkj : k < j := (Nat.pow_lt_pow_iff_right (by decide)).mp (Nat.lt_of_mul_lt_mul_left hlt)
    rw [Nat.mul_assoc, ← pow_succ]
    exact Nat.mul_le_mul_left _ (Nat.pow_le_pow_right (by decide) hkj)
  · exact hle

theorem grownCapacity_pow (k length : ℕ) :
    ∃ k', grownCapacity (initialStringCapacity * 2 ^ k) length = initialStringCapacity * 2 ^ k' := by
  rw [grownCapacity]
  split
  · exact ⟨k + 1, by rw [Nat.mul_assoc, ← pow_succ]⟩
  · exact ⟨k, rfl⟩

theorem le_grownCapacity (hle : length ≤ capacity) (hcapacity : initialStringCapacity ≤ capacity) :
    capacity ≤ grownCapacity capacity length ∧ length + 2 ≤ grownCapacity capacity length := by
  rw [initialStringCapacity] at hcapacity
  rw [grownCapacity]
  split <;> omega

/-- A buffer that is full at the end has the capacity that the pieces need. -/
theorem endsFull_iff (hle : length ≤ capacity) {k : ℕ}
    (hk : capacity = initialStringCapacity * 2 ^ k) :
    EndsFull capacity length pieces ↔ ∃ j, capacity ≤ initialStringCapacity * 2 ^ j ∧
      FitsIn (initialStringCapacity * 2 ^ j) length pieces := by
  induction pieces generalizing capacity length k with
  | nil =>
      rw [EndsFull]
      constructor
      · rintro rfl
        exact ⟨k, hk.le, hk⟩
      · rintro ⟨j, hj, hfull⟩
        rw [FitsIn] at hfull
        omega
  | cons piece pieces ih =>
      have hinitial : initialStringCapacity ≤ capacity :=
        hk ▸ Nat.le_mul_of_pos_right _ (Nat.two_pow_pos k)
      obtain ⟨hgrown, hfits⟩ := le_grownCapacity hle hinitial
      obtain ⟨k', hk'⟩ := grownCapacity_pow k length
      rw [← hk] at hk'
      rw [EndsFull, ih ((piece.after_le length).trans hfits) hk']
      constructor
      · rintro ⟨j, hj, hrest⟩
        exact ⟨j, hgrown.trans hj, hfits.trans hj, hrest⟩
      · rintro ⟨j, hj, hlength, hrest⟩
        refine ⟨j, ?_, hrest⟩
        rw [hk]
        exact grownCapacity_le (hk ▸ hj) hlength

theorem fitsIn_iff :
    FitsIn limit length pieces ↔ segmentLength length pieces = limit ∧
      ∀ before piece after, pieces = before ++ piece :: after →
        segmentLength length before + 2 ≤ limit := by
  induction pieces generalizing length with
  | nil =>
      refine ⟨fun h => ⟨h, fun before piece after heq => ?_⟩, And.left⟩
      exact absurd heq.symm (List.append_ne_nil_of_right_ne_nil _ (List.cons_ne_nil _ _))
  | cons first pieces ih =>
      rw [FitsIn, ih]
      constructor
      · rintro ⟨hlength, hfull, hbefore⟩
        refine ⟨hfull, fun before piece after heq => ?_⟩
        cases before with
        | nil => exact hlength
        | cons d before =>
            obtain ⟨rfl, rfl⟩ := List.cons.inj heq
            exact hbefore before piece after rfl
      · rintro ⟨hfull, hbefore⟩
        refine ⟨hbefore [] first pieces rfl, hfull, fun before piece after heq => ?_⟩
        exact hbefore (first :: before) piece after (by rw [heq, List.cons_append])

theorem segmentLength_append (length : ℕ) (us vs : List LiteralPiece) :
    segmentLength length (us ++ vs) = segmentLength (segmentLength length us) vs :=
  List.foldl_append

/-- Without an interpolation the segment gets longer. -/
theorem le_segmentLength (h : .interpolation ∉ pieces) : length ≤ segmentLength length pieces := by
  induction pieces generalizing length with
  | nil => exact le_rfl
  | cons piece pieces ih =>
      rw [List.mem_cons, not_or] at h
      refine le_trans ?_ (ih h.2)
      cases piece with
      | byte => exact Nat.le_succ _
      | pair => exact Nat.le_add_right _ 2
      | interpolation => exact absurd rfl h.1

/-- The last piece fills the buffer, and it is one of two bytes. -/
theorem fillsBuffer_iff (k : ℕ) :
    FillsBuffer pieces k ↔ FitsIn (initialStringCapacity * 2 ^ k) 0 pieces := by
  have hpos : 0 < initialStringCapacity * 2 ^ k := Nat.mul_pos (by decide) (Nat.two_pow_pos k)
  rw [fitsIn_iff]
  constructor
  · rintro ⟨hfull, hpair, hbefore⟩
    refine ⟨hfull, fun before piece after heq => ?_⟩
    by_cases hmem : .interpolation ∈ piece :: after
    · -- The segment goes on to the next interpolation.
      obtain ⟨mid, rest, hmid, hnot⟩ := List.eq_append_cons_of_mem hmem
      have hlater := hbefore (before ++ mid) rest (by rw [heq, hmid, List.append_assoc])
      rw [segmentLength_append] at hlater
      have hle := @le_segmentLength (segmentLength 0 before) mid hnot
      omega
    · -- The segment is the last one.
      obtain ⟨mid, last, hmid⟩ := List.eq_nil_or_concat (piece :: after) |>.resolve_left
        (List.cons_ne_nil _ _)
      rw [heq, hmid, List.concat_eq_append, ← List.append_assoc, List.getLast?_concat]
        at hpair
      obtain rfl := Option.some.inj hpair
      rw [heq, hmid, List.concat_eq_append, segmentLength_append, segmentLength_append] at hfull
      rw [hmid, List.concat_eq_append, List.mem_append, not_or] at hmem
      have hle := @le_segmentLength (segmentLength 0 before) mid hmem.1
      have hlast : segmentLength (segmentLength (segmentLength 0 before) mid) [.pair] =
        segmentLength (segmentLength 0 before) mid + 2 := rfl
      omega
  · rintro ⟨hfull, hbefore⟩
    refine ⟨hfull, ?_, fun before after heq => hbefore before _ after heq⟩
    obtain rfl | ⟨before, last, rfl⟩ := List.eq_nil_or_concat pieces
    · exact absurd hfull hpos.ne
    · rw [List.concat_eq_append] at hfull hbefore ⊢
      have hlength := hbefore before last [] rfl
      rw [segmentLength_append] at hfull
      have hafter : last.after (segmentLength 0 before) = initialStringCapacity * 2 ^ k := hfull
      rw [List.getLast?_concat]
      cases last with
      | pair => rfl
      | byte =>
          rw [LiteralPiece.after] at hafter
          omega
      | interpolation =>
          rw [LiteralPiece.after] at hafter
          omega

end Lengths

/-! ### The loop -/

section Turns

variable {p : Parser} {s : ParseState} {b : StringBuffer} {result : Option ASTExpr} {c : Char}
  {u : List Char}

theorem bufferedTurn_end (h : s.rest = [] ∨ s.rest.head? = some '"') :
    EndsIn (bufferedTurn p (b, result)) s (.inr (b, result)) s := by
  refine endsIn_bind.mpr ⟨s.rest, s, endsIn_onParser.mpr ⟨rfl, rfl⟩, ?_⟩
  cases hrest : s.rest with
  | nil => exact ⟨rfl, rfl⟩
  | cons c u =>
      rw [hrest] at h
      obtain rfl := Option.some.inj (h.resolve_left (List.cons_ne_nil c u))
      exact ⟨rfl, rfl⟩

/-- A turn that writes one or two bytes. -/
theorem endsIn_write {cs : List Char} {n : ℕ} (hcs : cs.length = 1 ∨ cs.length = 2)
    (hn : n ≤ s.rest.length) :
    ∃ b', b'.capacity = grownCapacity b.capacity b.bytes.length ∧
      b'.bytes.length = b.bytes.length + cs.length ∧
      EndsIn (writeBytes b.grow cs >>= fun b' => onParser (advance n) >>= fun _ =>
          pure (.inl (b', result)) :
          Buffered ((StringBuffer × Option ASTExpr) ⊕ (StringBuffer × Option ASTExpr)))
        s (.inl (b', result)) { s with rest := s.rest.drop n } := by
  have hfits := b.grow_fits
  refine ⟨b.grow.append cs (by omega), b.grow_capacity, ?_, ?_⟩
  · rw [StringBuffer.append, List.length_append, b.grow_bytes]
  · rw [writeBytes_eq cs b.grow (by omega), pure_bind]
    exact ⟨rfl, final_advance hn⟩

theorem bufferedTurn_byte (h : s.rest = c :: u) (hquote : c ≠ '"') (hslash : c = '\\' → u = []) :
    ∃ b', b'.capacity = grownCapacity b.capacity b.bytes.length ∧
      b'.bytes.length = LiteralPiece.byte.after b.bytes.length ∧
      EndsIn (bufferedTurn p (b, result)) s (.inl (b', result)) { s with rest := u } := by
  obtain ⟨b', hcapacity, hlength, hends⟩ :=
    @endsIn_write s b result [c] 1 (.inl rfl) (by simp [h])
  refine ⟨b', hcapacity, hlength, endsIn_bind.mpr ⟨s.rest, s, endsIn_onParser.mpr ⟨rfl, rfl⟩, ?_⟩⟩
  have hmore : ∀ d v, c :: u ≠ '\\' :: d :: v := by
    intro d v heq
    obtain ⟨rfl, rfl⟩ := List.cons.inj heq
    exact List.cons_ne_nil _ _ (hslash rfl)
  rw [h] at hends ⊢
  split
  next heq => cases heq
  next heq => exact absurd (List.cons.inj heq).1 hquote
  next heq => exact absurd heq (hmore _ _)
  next heq => exact absurd heq (hmore _ _)
  next heq =>
    obtain ⟨rfl, rfl⟩ := List.cons.inj heq
    exact hends

theorem bufferedTurn_escape (h : s.rest = '\\' :: c :: u) (hparen : c ≠ '(') :
    ∃ b', b'.capacity = grownCapacity b.capacity b.bytes.length ∧
      b'.bytes.length = (escapePiece c).after b.bytes.length ∧
      EndsIn (bufferedTurn p (b, result)) s (.inl (b', result)) { s with rest := u } := by
  obtain ⟨b', hcapacity, hlength, hends⟩ :=
    @endsIn_write s b result (unescape c) 2 (unescape_length c) (by simp [h])
  refine ⟨b', hcapacity, ?_, endsIn_bind.mpr ⟨s.rest, s, endsIn_onParser.mpr ⟨rfl, rfl⟩, ?_⟩⟩
  · rw [hlength, escapePiece]
    obtain hone | htwo := unescape_length c
    · rw [hone]
      rfl
    · rw [htwo]
      rfl
  · rw [h] at hends ⊢
    split
    next heq => cases heq
    next heq => exact absurd (List.cons.inj heq).1 (by decide)
    next heq => exact absurd (List.cons.inj (List.cons.inj heq).2).1 hparen
    next heq =>
      obtain ⟨rfl, rfl⟩ := List.cons.inj (List.cons.inj heq).2
      exact hends
    next hne heq =>
      obtain ⟨rfl, rfl⟩ := List.cons.inj heq
      exact (hne c u rfl rfl).elim

theorem endsIn_require {message : String} {x : Unit} {t : ParseState} :
    EndsIn (require c message) s x t ↔ ∃ v, s.rest = c :: v ∧ t = { s with rest := v } := by
  refine ⟨fun h => ?_, fun ⟨v, hrest, ht⟩ => ht ▸ reads_require c message v s hrest⟩
  obtain ⟨first, _, hfirst, htest⟩ := endsIn_bind.mp h
  obtain rfl : s.rest.head? = first := Except.ok.inj hfirst.1
  split at htest
  · rename_i heq
    cases hrest : s.rest with
    | nil =>
        rw [hrest] at heq
        cases heq
    | cons d v =>
        rw [hrest, List.head?_cons, beq_iff_eq] at heq
        obtain rfl := Option.some.inj heq
        exact ⟨v, rfl, (h.unique (reads_require d message v s hrest)).2⟩
  · cases htest.1

theorem endsIn_parseInterpolation {x : ASTExpr} {t : ParseState} (hlength : 2 ≤ s.rest.length) :
    EndsIn (parseInterpolation p result) s x t ↔
      ∃ e t' v, EndsIn p.expression { s with rest := s.rest.drop 2 } e t' ∧
        skipSpaceAndComments false t'.rest = ')' :: v ∧ t = { t' with rest := v } ∧
        x = concatenate result (.call "str".toList [e]) := by
  rw [← final_advance hlength]
  constructor
  · intro h
    obtain ⟨_, _, ⟨-, rfl⟩, h⟩ := endsIn_bind.mp h
    obtain ⟨e, t', he, h⟩ := endsIn_bind.mp h
    obtain ⟨_, _, ⟨-, rfl⟩, h⟩ := endsIn_bind.mp h
    obtain ⟨_, _, hrequire, h⟩ := endsIn_bind.mp h
    obtain ⟨v, hv, rfl⟩ := endsIn_require.mp hrequire
    obtain ⟨rfl, rfl⟩ := endsIn_pure.mp h
    exact ⟨e, t', v, he, hv, rfl, rfl⟩
  · rintro ⟨e, t', v, he, hv, rfl, rfl⟩
    refine endsIn_bind.mpr ⟨(), _, ⟨rfl, rfl⟩, endsIn_bind.mpr ⟨e, t', he, ?_⟩⟩
    refine endsIn_bind.mpr ⟨(), { t' with rest := skipSpaceAndComments false t'.rest }, ⟨rfl, rfl⟩, ?_⟩
    exact endsIn_bind.mpr ⟨(), _, endsIn_require.mpr ⟨v, hv, rfl⟩, endsIn_pure.mpr ⟨rfl, rfl⟩⟩

/-- A turn at an interpolation. -/
theorem bufferedTurn_interpolation (h : s.rest = '\\' :: '(' :: u)
    {x : (StringBuffer × Option ASTExpr) ⊕ (StringBuffer × Option ASTExpr)} {t : ParseState} :
    EndsIn (bufferedTurn p (b, result)) s x t ↔
      ∃ e t' v, EndsIn p.expression { s with rest := u } e t' ∧
        skipSpaceAndComments false t'.rest = ')' :: v ∧ t = { t' with rest := v } ∧
        x = .inl (b.grow.clear,
          some (concatenate (flushSegment b.bytes result) (.call "str".toList [e]))) := by
  have hfits := b.grow_fits
  have hflush : flushBuffer b.grow result = pure (flushSegment b.bytes result) := by
    rw [flushBuffer_eq (by omega), b.grow_bytes]
  have hturn : EndsIn (bufferedTurn p (b, result)) s x t ↔
      EndsIn (flushBuffer b.grow result >>= fun r => onParser (parseInterpolation p r) >>= fun r =>
        pure (.inl (b.grow.clear, some r))) s x t := by
    refine endsIn_bind.trans ⟨?_, fun h' => ⟨s.rest, s, endsIn_onParser.mpr ⟨rfl, rfl⟩, ?_⟩⟩
    · rintro ⟨source, s', hsource, h'⟩
      obtain ⟨htext, rfl⟩ := endsIn_onParser.mp hsource
      obtain rfl : s.rest = source := Except.ok.inj htext
      rw [h] at h'
      exact h'
    · rw [h]
      exact h'
  rw [hturn, hflush, pure_bind, endsIn_bind]
  have hlength : 2 ≤ s.rest.length := by simp [h]
  simp only [endsIn_onParser, endsIn_parseInterpolation hlength, h, List.drop_succ_cons,
    List.drop_zero]
  constructor
  · rintro ⟨r, t', ⟨e, t'', v, he, hv, rfl, rfl⟩, hpure⟩
    obtain ⟨rfl, rfl⟩ := endsIn_pure.mp hpure
    exact ⟨e, t'', v, he, hv, rfl, rfl⟩
  · rintro ⟨e, t', v, he, hv, rfl, rfl⟩
    exact ⟨_, _, ⟨e, t', v, he, hv, rfl, rfl⟩, endsIn_pure.mpr ⟨rfl, rfl⟩⟩

end Turns

/-! #### The pieces, by the first characters -/

section Pieces

variable {p : Parser} {s : ParseState} {c : Char} {u : List Char} {pieces : List LiteralPiece}

theorem not_closes_nil (h : s.rest = []) : ¬Closes p s pieces := by
  intro hcloses
  cases hcloses with
  | quote hs => cases h.symm.trans hs
  | byte hs => cases h.symm.trans hs
  | escape hs => cases h.symm.trans hs
  | interpolation hs => cases h.symm.trans hs

theorem not_closes_slash (h : s.rest = ['\\']) : ¬Closes p s pieces := by
  intro hcloses
  cases hcloses with
  | quote hs => cases h.symm.trans hs
  | byte hs _ hslash => exact hslash (List.cons.inj (h.symm.trans hs)).1.symm
  | escape hs => cases h.symm.trans hs
  | interpolation hs => cases h.symm.trans hs

theorem closes_quote_iff (h : s.rest = '"' :: u) : Closes p s pieces ↔ pieces = [] := by
  refine ⟨fun hcloses => ?_, fun heq => heq ▸ .quote h⟩
  cases hcloses with
  | quote => rfl
  | byte hs hquote => exact absurd (List.cons.inj (h.symm.trans hs)).1.symm hquote
  | escape hs => cases h.symm.trans hs
  | interpolation hs => cases h.symm.trans hs

theorem closes_byte_iff (h : s.rest = c :: u) (hquote : c ≠ '"') (hslash : c ≠ '\\') :
    Closes p s pieces ↔
      ∃ rest, pieces = .byte :: rest ∧ Closes p { s with rest := u } rest := by
  refine ⟨fun hcloses => ?_, fun ⟨rest, heq, hrest⟩ => heq ▸ .byte h hquote hslash hrest⟩
  cases hcloses with
  | quote hs => exact absurd (List.cons.inj (h.symm.trans hs)).1 hquote
  | byte hs _ _ hc =>
      obtain ⟨rfl, rfl⟩ := List.cons.inj (h.symm.trans hs)
      exact ⟨_, rfl, hc⟩
  | escape hs => exact absurd (List.cons.inj (h.symm.trans hs)).1 hslash
  | interpolation hs => exact absurd (List.cons.inj (h.symm.trans hs)).1 hslash

theorem closes_escape_iff (h : s.rest = '\\' :: c :: u) (hparen : c ≠ '(') :
    Closes p s pieces ↔
      ∃ rest, pieces = escapePiece c :: rest ∧ Closes p { s with rest := u } rest := by
  refine ⟨fun hcloses => ?_, fun ⟨rest, heq, hrest⟩ => heq ▸ .escape h hparen hrest⟩
  cases hcloses with
  | quote hs => exact absurd (List.cons.inj (h.symm.trans hs)).1 (by decide)
  | byte hs _ hslash => exact absurd (List.cons.inj (h.symm.trans hs)).1.symm hslash
  | escape hs _ hc =>
      obtain ⟨rfl, rfl⟩ := List.cons.inj (List.cons.inj (h.symm.trans hs)).2
      exact ⟨_, rfl, hc⟩
  | interpolation hs =>
      exact absurd (List.cons.inj (List.cons.inj (h.symm.trans hs)).2).1 hparen

theorem closes_interpolation_iff (h : s.rest = '\\' :: '(' :: u) :
    Closes p s pieces ↔
      ∃ e t v rest, EndsIn p.expression { s with rest := u } e t ∧
        skipSpaceAndComments false t.rest = ')' :: v ∧ pieces = .interpolation :: rest ∧
        Closes p { t with rest := v } rest := by
  constructor
  · intro hcloses
    cases hcloses with
    | quote hs => cases h.symm.trans hs
    | byte hs _ hslash => exact absurd (List.cons.inj (h.symm.trans hs)).1.symm hslash
    | escape hs hparen =>
        exact absurd (List.cons.inj (List.cons.inj (h.symm.trans hs)).2).1.symm hparen
    | interpolation hs he hparen hc =>
        obtain rfl := (List.cons.inj (List.cons.inj (h.symm.trans hs)).2).2
        exact ⟨_, _, _, _, he, hparen, rfl, hc⟩
  · rintro ⟨e, t, v, rest, he, hparen, rfl, hc⟩
    exact .interpolation h he hparen hc

end Pieces

/-! ### The whole literal -/

/-- The loop has come to the closing quote, and no byte of the buffer is free. -/
def LoopEndsFull (p : Parser) (n : ℕ) (b : StringBuffer) (result : Option ASTExpr)
    (s : ParseState) : Prop :=
  ∃ b' result' t,
    EndsIn (loop (.parse .diverges) (bufferedTurn p) n (b, result)) s (b', result') t ∧
      t.rest.head? = some '"' ∧ b'.bytes.length = b'.capacity

section Loop

variable {p : Parser} (hp : Advances p.expression)
include hp

/-- **The loop of `parse_string_literal`** ends with a full buffer where the pieces fill it. -/
theorem loopEndsFull_iff :
    ∀ (n : ℕ) (s : ParseState) (b : StringBuffer) (result : Option ASTExpr), s.rest.length < n →
      (LoopEndsFull p n b result s ↔
        ∃ pieces, Closes p s pieces ∧ EndsFull b.capacity b.bytes.length pieces) := by
  intro n
  induction n with
  | zero => exact fun s _ _ h => absurd h (Nat.not_lt_zero _)
  | succ n ih =>
      intro s b result hn
      -- The loop goes on with a shorter text.
      have hnext : ∀ (piece : LiteralPiece) (b' : StringBuffer) (result' : Option ASTExpr)
          (t : ParseState), t.rest.length < n →
          b'.capacity = grownCapacity b.capacity b.bytes.length →
          b'.bytes.length = piece.after b.bytes.length →
          EndsIn (bufferedTurn p (b, result)) s (.inl (b', result')) t →
          (LoopEndsFull p (n + 1) b result s ↔ ∃ pieces, Closes p t pieces ∧
            EndsFull b.capacity b.bytes.length (piece :: pieces)) := by
        intro piece b' result' t hlt hcapacity hlength hturn
        have hloop := ih t b' result' hlt
        rw [hcapacity, hlength] at hloop
        refine Iff.trans ?_ hloop
        simp only [LoopEndsFull, endsIn_loop_next hturn]
      -- The loop ends here.
      have hend : s.rest = [] ∨ s.rest.head? = some '"' → (LoopEndsFull p (n + 1) b result s ↔
          s.rest.head? = some '"' ∧ b.bytes.length = b.capacity) := by
        intro h
        simp only [LoopEndsFull, endsIn_loop_last (bufferedTurn_end h)]
        constructor
        · rintro ⟨b', result', t, ⟨heq, rfl⟩, hquote, hfull⟩
          obtain ⟨rfl, rfl⟩ := Prod.mk.inj heq
          exact ⟨hquote, hfull⟩
        · exact fun ⟨hquote, hfull⟩ => ⟨b, result, s, ⟨rfl, rfl⟩, hquote, hfull⟩
      -- A piece of one or two bytes.
      have hwrite : ∀ (piece : LiteralPiece) (b' : StringBuffer) (u : List Char),
          u.length < s.rest.length → b'.capacity = grownCapacity b.capacity b.bytes.length →
          b'.bytes.length = piece.after b.bytes.length →
          EndsIn (bufferedTurn p (b, result)) s (.inl (b', result)) { s with rest := u } →
          (∀ pieces, Closes p s pieces ↔
            ∃ rest, pieces = piece :: rest ∧ Closes p { s with rest := u } rest) →
          (LoopEndsFull p (n + 1) b result s ↔
            ∃ pieces, Closes p s pieces ∧ EndsFull b.capacity b.bytes.length pieces) := by
        intro piece b' u hlt hcapacity hlength hturn hcloses
        rw [hnext piece b' result _ (show u.length < n by omega) hcapacity hlength hturn]
        constructor
        · rintro ⟨rest, hrest, hfull⟩
          exact ⟨_, (hcloses _).mpr ⟨rest, rfl, hrest⟩, hfull⟩
        · rintro ⟨pieces, hpieces, hfull⟩
          obtain ⟨rest, rfl, hrest⟩ := (hcloses _).mp hpieces
          exact ⟨rest, hrest, hfull⟩
      by_cases hnil : s.rest = []
      · rw [hend (.inl hnil), hnil]
        exact iff_of_false (fun h => by cases h.1) fun h => not_closes_nil hnil h.choose_spec.1
      obtain ⟨c, u, hrest⟩ := List.exists_cons_of_ne_nil hnil
      have hlength : s.rest.length = u.length + 1 := by rw [hrest, List.length_cons]
      by_cases hquote : c = '"'
      · subst hquote
        have hhead : s.rest.head? = some '"' := by rw [hrest, List.head?_cons]
        rw [hend (.inr hhead), and_iff_right hhead]
        simp only [closes_quote_iff hrest, exists_eq_left, EndsFull]
      by_cases hslash : c = '\\'
      · subst hslash
        cases u with
        | nil =>
            -- A backslash at the end of the text is written, and the literal is not closed.
            obtain ⟨b', hcapacity, hlen, hturn⟩ :=
              @bufferedTurn_byte p s b result _ _ hrest hquote fun _ => rfl
            rw [hnext .byte b' result { s with rest := [] } (show 0 < n by omega) hcapacity hlen hturn]
            refine iff_of_false (fun h => ?_) fun h => not_closes_slash hrest h.choose_spec.1
            exact not_closes_nil rfl h.choose_spec.1
        | cons c u =>
            rw [List.length_cons] at hlength
            by_cases hparen : c = '('
            · subst hparen
              have hlt : ∀ e t v, EndsIn p.expression { s with rest := u } e t →
                  skipSpaceAndComments false t.rest = ')' :: v → v.length < n := by
                intro e t v he hv
                have hle := (hp { s with rest := u }).length_le
                rw [he.2] at hle
                have hskip := skip_length_le false t.rest
                rw [hv, List.length_cons] at hskip
                dsimp only at hle
                omega
              constructor
              · intro hfull
                obtain ⟨b', result', t, hloop, -⟩ := id hfull
                rw [loop, endsIn_bind] at hloop
                obtain ⟨next, t', hturn, -⟩ := hloop
                obtain ⟨e, t'', v, he, hv, rfl, rfl⟩ :=
                  (bufferedTurn_interpolation hrest).mp hturn
                obtain ⟨pieces, hcloses, hpieces⟩ := (hnext .interpolation b.grow.clear _ _
                  (hlt e t'' v he hv) b.grow_capacity rfl hturn).mp hfull
                exact ⟨_, .interpolation hrest he hv hcloses, hpieces⟩
              · rintro ⟨pieces, hcloses, hpieces⟩
                obtain ⟨e, t, v, rest, he, hv, rfl, hc⟩ :=
                  (closes_interpolation_iff hrest).mp hcloses
                have hturn := (@bufferedTurn_interpolation p s b result u hrest _ _).mpr
                  ⟨e, t, v, he, hv, rfl, rfl⟩
                exact (hnext .interpolation b.grow.clear _ { t with rest := v } (hlt e t v he hv)
                  b.grow_capacity rfl hturn).mpr ⟨rest, hc, hpieces⟩
            · obtain ⟨b', hcapacity, hlen, hturn⟩ :=
                @bufferedTurn_escape p s b result _ _ hrest hparen
              exact hwrite _ b' u (by omega) hcapacity hlen hturn fun pieces =>
                closes_escape_iff hrest hparen
      · obtain ⟨b', hcapacity, hlen, hturn⟩ :=
          @bufferedTurn_byte p s b result _ _ hrest hquote fun h => absurd h hslash
        exact hwrite _ b' u (by omega) hcapacity hlen hturn fun pieces =>
          closes_byte_iff hrest hquote hslash

end Loop

section Literal

variable {p : Parser} {s : ParseState}

/-- A turn writes in the buffer only. -/
theorem bufferedTurn_ne_overrun (x : StringBuffer × Option ASTExpr) (s : ParseState) :
    (bufferedTurn p x).result s ≠ .error .overrun := by
  obtain ⟨b, result⟩ := x
  have hfits := b.grow_fits
  have hwrite : ∀ (cs : List Char) (n : ℕ), cs.length = 1 ∨ cs.length = 2 → n ≤ s.rest.length →
      (writeBytes b.grow cs >>= fun b' => onParser (advance n) >>= fun _ =>
          pure (.inl (b', result)) :
        Buffered ((StringBuffer × Option ASTExpr) ⊕ (StringBuffer × Option ASTExpr))).result s ≠
        .error .overrun := by
    intro cs n hcs hn h
    obtain ⟨b', -, -, hends, -⟩ := @endsIn_write s b result cs n hcs hn
    cases h.symm.trans hends
  have htext : (onParser text).result s = .ok s.rest := rfl
  have hfinal : (onParser text).final s = s := rfl
  rw [bufferedTurn, result_bind, htext, hfinal]
  dsimp only
  split
  · exact fun h => by cases h
  · exact fun h => by cases h
  · have hflush : flushBuffer b.grow result = pure (flushSegment b.grow.bytes result) :=
      flushBuffer_eq (by omega) result
    rw [hflush, pure_bind, result_bind]
    intro h
    cases hr : (onParser (parseInterpolation p (flushSegment b.grow.bytes result))).result s with
    | ok r =>
        rw [hr] at h
        cases h
    | error e =>
        rw [hr] at h
        obtain rfl : e = .overrun := Except.error.inj h
        exact onParser_ne_overrun _ s hr
  · next heq => exact hwrite (unescape _) 2 (unescape_length _) (by simp [heq])
  · next heq => exact hwrite [_] 1 (.inl rfl) (by simp [heq])

/-- The end of the function writes outside of a buffer that is full, and only there. -/
theorem finishLiteral_overrun_iff (b : StringBuffer) (result : Option ASTExpr) (t : ParseState) :
    (finishLiteral b result).result t = .error .overrun ↔ b.bytes.length = b.capacity := by
  have hfits := b.fits
  have hpos : 0 < b.capacity := lt_of_lt_of_le (by decide) b.capacity_ge
  by_cases hlt : b.bytes.length < b.capacity
  · refine iff_of_false (fun h => ?_) hlt.ne
    rw [finishLiteral_eq hlt] at h
    cases h
  · refine iff_of_true ?_ (by omega)
    have hwrite : writeTerminator b = throw .overrun := if_neg hlt
    have hne : b.bytes.isEmpty = false := by
      rw [List.isEmpty_eq_false_iff, ← List.length_pos_iff]
      omega
    cases result with
    | none =>
        rw [finishLiteral, hwrite]
        rfl
    | some e =>
        rw [finishLiteral, flushBuffer, hne, if_neg Bool.false_ne_true, hwrite]
        rfl

/-- The function writes outside of its buffer where the loop ends with a full one. -/
theorem overrun_iff_loopEndsFull (hlength : 1 ≤ s.rest.length) :
    (bufferedStringLiteral p).result s = .error .overrun ↔
      LoopEndsFull p ((s.rest.drop 1).length + 1) .initial none { s with rest := s.rest.drop 1 } := by
  have hrun : (bufferedStringLiteral p).result s =
      (loop (.parse .diverges) (bufferedTurn p) ((s.rest.drop 1).length + 1) (.initial, none) >>=
        fun x => onParser (require '"' "Unterminated string literal") >>= fun _ =>
          finishLiteral x.1 x.2).result { s with rest := s.rest.drop 1 } := by
    rw [← final_advance hlength]
    rfl
  rw [hrun, result_bind]
  cases hr : (loop (.parse .diverges) (bufferedTurn p) ((s.rest.drop 1).length + 1)
      (.initial, none)).result { s with rest := s.rest.drop 1 } with
  | error e =>
      refine iff_of_false (fun h => ?_) ?_
      · obtain rfl : e = .overrun := Except.error.inj h
        exact result_loop_ne (fun h => by cases h) bufferedTurn_ne_overrun _ _ _ hr
      · rintro ⟨b', result', t, ⟨hok, -⟩, -⟩
        cases hr.symm.trans hok
  | ok x =>
      obtain ⟨b', result'⟩ := x
      dsimp only
      generalize ht : (loop (.parse .diverges) (bufferedTurn p) ((s.rest.drop 1).length + 1)
        (.initial, none)).final { s with rest := s.rest.drop 1 } = t
      have hends : LoopEndsFull p ((s.rest.drop 1).length + 1) .initial none
          { s with rest := s.rest.drop 1 } ↔
            t.rest.head? = some '"' ∧ b'.bytes.length = b'.capacity := by
        constructor
        · rintro ⟨b'', result'', t', hloop, hquote, hfull⟩
          obtain ⟨heq, rfl⟩ := hloop.unique ⟨hr, ht⟩
          obtain ⟨rfl, rfl⟩ := Prod.mk.inj heq
          exact ⟨hquote, hfull⟩
        · exact fun ⟨hquote, hfull⟩ => ⟨b', result', t, ⟨hr, ht⟩, hquote, hfull⟩
      rw [hends, result_bind, result_onParser]
      by_cases hquote : t.rest.head? = some '"'
      · obtain ⟨u, hu⟩ : ∃ u, t.rest = '"' :: u := by
          cases hrest : t.rest with
          | nil =>
              rw [hrest] at hquote
              cases hquote
          | cons c u =>
              rw [hrest] at hquote
              exact ⟨u, by rw [Option.some.inj hquote]⟩
        rw [(reads_require '"' _ u t hu).1, and_iff_right hquote]
        exact finishLiteral_overrun_iff b' result' _
      · refine iff_of_false (fun h => ?_) fun h => hquote h.1
        have hfails : (require '"' "Unterminated string literal").result t = .error .null := by
          have hpeek : peek.result t = .ok t.rest.head? := rfl
          rw [require, result_bind, hpeek]
          dsimp only
          rw [if_neg (by simpa using hquote)]
          rfl
        rw [hfails] at h
        cases h

end Literal

/-! ### The function without its buffer -/

/-- `m` does what `m'` does; `g` takes its results to those of `m'`. -/
def Erases {α β : Type} (g : α → β) (m : Buffered α) (m' : Parse β) : Prop :=
  ∀ s, (m.result s).map g = (m'.result s).mapError .parse ∧ m.final s = m'.final s

section Erase

variable {α β γ δ : Type} {g : α → β} {h : γ → δ} {m : Buffered α} {m' : Parse β}

theorem erases_pure (a : α) : Erases g (pure a) (pure (g a)) :=
  fun _ => ⟨rfl, rfl⟩

theorem erases_onParser (m : Parse α) : Erases id (onParser m) m := by
  intro s
  rw [result_onParser]
  cases m.result s <;> exact ⟨rfl, rfl⟩

theorem Erases.bind {f : α → Buffered γ} {f' : β → Parse δ} (hm : Erases g m m')
    (hf : ∀ a, Erases h (f a) (f' (g a))) : Erases h (m >>= f) (m' >>= f') := by
  intro s
  obtain ⟨hresult, hfinal⟩ := hm s
  rw [result_bind, result_bind, final_bind, final_bind, hfinal]
  cases hr : m.result s with
  | ok a =>
      cases hr' : m'.result s with
      | ok b =>
          rw [hr, hr'] at hresult
          obtain rfl : g a = b := Except.ok.inj hresult
          exact hf a _
      | error e =>
          rw [hr, hr'] at hresult
          cases hresult
  | error e =>
      cases hr' : m'.result s with
      | ok b =>
          rw [hr, hr'] at hresult
          cases hresult
      | error e' =>
          rw [hr, hr'] at hresult
          exact ⟨congrArg _ (Except.error.inj hresult), rfl⟩

/-- A computation after which the result is made, or a byte is written outside. -/
theorem Erases.finish {f : α → Buffered γ} {f' : β → γ} {s : ParseState} (hm : Erases g m m')
    (hf : ∀ a, (∀ t, (f a).result t = .error .overrun) ∨ f a = pure (f' (g a)))
    (hwrites : (m >>= f).result s ≠ .error .overrun) :
    (m >>= f).result s = ((m' >>= fun b => pure (f' b)).result s).mapError .parse ∧
      (m >>= f).final s = (m' >>= fun b => pure (f' b)).final s := by
  obtain ⟨hresult, hfinal⟩ := hm s
  rw [result_bind] at hwrites
  rw [result_bind, result_bind, final_bind, final_bind, ← hfinal]
  cases hr : m.result s with
  | ok a =>
      rw [hr] at hresult hwrites
      cases hr' : m'.result s with
      | ok b =>
          rw [hr'] at hresult
          obtain rfl : g a = b := Except.ok.inj hresult
          obtain hoverrun | hpure := hf a
          · exact absurd (hoverrun _) hwrites
          · dsimp only
            rw [hpure]
            exact ⟨rfl, rfl⟩
      | error e =>
          rw [hr'] at hresult
          cases hresult
  | error e =>
      rw [hr] at hresult
      cases hr' : m'.result s with
      | ok b =>
          rw [hr'] at hresult
          cases hresult
      | error e' =>
          rw [hr'] at hresult
          exact ⟨congrArg _ (Except.error.inj hresult), rfl⟩

theorem erases_loop {turn : α → Buffered (α ⊕ γ)} {turn' : β → Parse (β ⊕ δ)}
    (hturn : ∀ a, Erases (Sum.map g h) (turn a) (turn' (g a))) :
    ∀ n a, Erases h (loop (.parse .diverges) turn n a) (loop .diverges turn' n (g a)) := by
  intro n
  induction n with
  | zero => exact fun _ _ => ⟨rfl, rfl⟩
  | succ n ih =>
      refine fun a => (hturn a).bind fun next => ?_
      cases next with
      | inl a => exact ih a
      | inr c => exact erases_pure c

/-- The bytes, without their buffer. -/
def erase (x : StringBuffer × Option ASTExpr) : BreadString × Option ASTExpr :=
  (x.1.bytes, x.2)

theorem erases_write (b : StringBuffer) (result : Option ASTExpr) {cs : List Char}
    (n : ℕ) (hcs : cs.length = 1 ∨ cs.length = 2) :
    Erases (Sum.map erase erase)
      (writeBytes b.grow cs >>= fun b' => onParser (advance n) >>= fun _ => pure (.inl (b', result)))
      (advance n >>= fun _ => pure (.inl (b.bytes ++ cs, result))) := by
  have hfits := b.grow_fits
  rw [writeBytes_eq cs b.grow (by omega), pure_bind]
  have hbytes : (b.grow.append cs (by omega)).bytes = b.bytes ++ cs :=
    congrArg (· ++ cs) b.grow_bytes
  refine (erases_onParser _).bind fun _ => ?_
  rw [← hbytes]
  exact erases_pure _

theorem erases_stringTurn (p : Parser) (x : StringBuffer × Option ASTExpr) :
    Erases (Sum.map erase erase) (bufferedTurn p x) (stringTurn p (erase x)) := by
  obtain ⟨b, result⟩ := x
  have hfits := b.grow_fits
  refine (erases_onParser text).bind fun source => ?_
  dsimp only [id]
  obtain _ | ⟨c, u⟩ := source
  · exact erases_pure _
  by_cases hquote : c = '"'
  · subst hquote
    exact erases_pure _
  by_cases hslash : c = '\\'
  · subst hslash
    obtain _ | ⟨d, u⟩ := u
    · exact erases_write b result 1 (.inl rfl)
    by_cases hparen : d = '('
    · subst hparen
      have hflush : flushBuffer b.grow result = pure (flushSegment b.bytes result) := by
        rw [flushBuffer_eq (by omega), b.grow_bytes]
      simp only [hflush, pure_bind]
      exact (erases_onParser _).bind fun r => erases_pure _
    · simp only
      exact erases_write b result 2 (unescape_length _)
  · have hescape : ∀ d v, c = '\\' → u = d :: v → False := fun _ _ h _ => hslash h
    have hparen : ∀ v, c = '\\' → u = '(' :: v → False := fun _ h _ => hslash h
    simp only
    exact erases_write b result 1 (.inl rfl)

end Erase

/-- A write outside of the buffer, by the pieces of the literal. -/
theorem overrun_iff_fillsBuffer (conversions : Conversions) (n : ℕ) {s : ParseState}
    {text : List Char} (hs : s.rest = '"' :: text) :
    (bufferedStringLiteral (parser conversions n)).result s = .error .overrun ↔
      ∃ pieces k, Closes (parser conversions n) { s with rest := text } pieces ∧
        FillsBuffer pieces k := by
  have hdrop : s.rest.drop 1 = text := by rw [hs, List.drop_succ_cons, List.drop_zero]
  have hloop := loopEndsFull_iff (advancesExpr_calls conversions n).expression (text.length + 1)
    { s with rest := text } .initial none (Nat.lt_succ_self _)
  rw [overrun_iff_loopEndsFull (by simp [hs]), hdrop, hloop]
  refine exists_congr fun pieces => ?_
  rw [exists_and_left]
  refine and_congr_right fun _ => ?_
  have hinitial : StringBuffer.initial.capacity = initialStringCapacity * 2 ^ 0 := rfl
  refine (endsFull_iff (Nat.zero_le _) hinitial).trans (exists_congr fun k => ?_)
  rw [fillsBuffer_iff]
  exact and_iff_right (Nat.le_mul_of_pos_right _ (Nat.two_pow_pos k))

theorem closes_replicate {p : Parser} {pieces : List LiteralPiece} {u : List Char} (s : ParseState)
    (n : ℕ) (h : Closes p { s with rest := u } pieces) :
    Closes p { s with rest := List.replicate n 'a' ++ u } (List.replicate n .byte ++ pieces) := by
  induction n with
  | zero => exact h
  | succ n ih => exact .byte rfl (by decide) (by decide) ih

end BreadLang
