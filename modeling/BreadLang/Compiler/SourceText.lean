import BreadLang.Library.Replacement

/-!
# The text of a source file

`normalize_source` of `main.c` runs over the bytes of a source file before they are parsed:
line ends become `\n`, spaces of Unicode become blanks, and a byte-order mark is dropped.
It is an instance of `Replacement`: its table is `normalRules`, the text it gives has no
sequence of the table left, and so a second run changes nothing, as long as dropping the
mark has not brought a second one to the front.
-/

namespace BreadLang

open Replacement

variable {c : UInt8} {rest src out : List UInt8}

/-- The byte-order mark. -/
def byteOrderMark : List UInt8 := [0xEF, 0xBB, 0xBF]

/-- A third byte of a blank after `E2 80`. -/
def isWideSpace (c2 : UInt8) : Bool :=
  (0x80 ≤ c2 ∧ c2 ≤ 0x8A) ∨ (0x8B ≤ c2 ∧ c2 ≤ 0x8D) ∨ c2 = 0xAF

/-- A third byte of a line end after `E2 80`. -/
def isLineSeparator (c2 : UInt8) : Bool :=
  c2 = 0xA8 ∨ c2 = 0xA9

/-- A turn of the loop in `normalize_source`, at the byte `src[i]` and the bytes behind it:
what is written to `out[j]`, and how far `i` moves. -/
def normalizeTurn (c : UInt8) (rest : List UInt8) : UInt8 × ℕ :=
  if c = 0x0D then
    (0x0A, if rest[0]? = some 0x0A then 2 else 1)
  else if c = 0xC2 ∧ rest[0]? = some 0xA0 then
    (0x20, 2)
  else if c = 0xE2 ∧ rest[0]? = some 0x80 ∧ rest[1]?.any isWideSpace then
    (0x20, 3)
  else if c = 0xE2 ∧ rest[0]? = some 0x80 ∧ rest[1]?.any isLineSeparator then
    (0x0A, 3)
  else if c = 0xE2 ∧ rest[0]? = some 0x81 ∧ rest[1]? = some 0xA0 then
    (0x20, 3)
  else
    (c, 1)

/-- The loop of `normalize_source`, on the bytes from `src[i]` on. -/
def normalizeLoop : List UInt8 → List UInt8
  | [] => []
  | c :: rest =>
      (normalizeTurn c rest).1 :: normalizeLoop (rest.drop ((normalizeTurn c rest).2 - 1))
termination_by src => src.length
decreasing_by
  simp only [List.length_drop, List.length_cons]
  omega

/-- The bytes of `src` that the loop of `normalize_source` starts with. -/
def skipByteOrderMark (src : List UInt8) : List UInt8 :=
  if byteOrderMark.isPrefixOf src then src.drop 3 else src

/-- `normalize_source`: the `*out_len` bytes before the final `'\0'`. -/
def normalizeSource (src : List UInt8) : List UInt8 :=
  normalizeLoop (skipByteOrderMark src)

/-! ## The table -/

/-- The line end `\r\n`. -/
def crlfRule : Rule UInt8 := ⟨[0x0D, 0x0A], 0x0A, by simp⟩

/-- The line end `\r`. -/
def crRule : Rule UInt8 := ⟨[0x0D], 0x0A, by simp⟩

/-- The no-break space. -/
def noBreakSpaceRule : Rule UInt8 := ⟨[0xC2, 0xA0], 0x20, by simp⟩

/-- A blank of three bytes. -/
def wideSpaceRule (c2 : UInt8) : Rule UInt8 := ⟨[0xE2, 0x80, c2], 0x20, by simp⟩

/-- A line end of three bytes. -/
def lineSeparatorRule (c2 : UInt8) : Rule UInt8 := ⟨[0xE2, 0x80, c2], 0x0A, by simp⟩

/-- The word joiner. -/
def wordJoinerRule : Rule UInt8 := ⟨[0xE2, 0x81, 0xA0], 0x20, by simp⟩

/-- What `normalize_source` replaces. -/
def normalRules : List (Rule UInt8) :=
  [crlfRule, crRule, noBreakSpaceRule] ++
  [0x80, 0x81, 0x82, 0x83, 0x84, 0x85, 0x86, 0x87, 0x88, 0x89, 0x8A, 0x8B, 0x8C, 0x8D, 0xAF].map
    wideSpaceRule ++
  [0xA8, 0xA9].map lineSeparatorRule ++ [wordJoinerRule]

/-- The bytes that end a blank are those of the table. -/
theorem isWideSpace_iff {c2 : UInt8} : isWideSpace c2 = true ↔
    c2 ∈ ([0x80, 0x81, 0x82, 0x83, 0x84, 0x85, 0x86, 0x87, 0x88, 0x89, 0x8A, 0x8B, 0x8C, 0x8D,
      0xAF] : List UInt8) := by
  simp only [isWideSpace, UInt8.le_iff_toNat_le, ← UInt8.toNat_inj, List.mem_cons,
    List.not_mem_nil, decide_eq_true_eq]
  simp
  omega

theorem isLineSeparator_iff {c2 : UInt8} :
    isLineSeparator c2 = true ↔ c2 ∈ ([0xA8, 0xA9] : List UInt8) := by
  simp [isLineSeparator]

theorem firstRule_family {f : UInt8 → Rule UInt8} {ends : List UInt8}
    (hf : ∀ c2, (f c2).seq = [0xE2, 0x80, c2]) :
    firstRule (ends.map f) (c :: rest) =
      if c = 0xE2 ∧ rest[0]? = some 0x80 then rest[1]?.bind fun c2 =>
        if c2 ∈ ends then some (f c2) else none
      else none := by
  induction ends with
  | nil => simp
  | cons e ends ih =>
    rw [List.map_cons, firstRule_cons, ih, hf]
    cases rest with
    | nil => simp
    | cons b rest =>
      cases rest with
      | nil => simp
      | cons d rest =>
        simp
        grind

/-- The first rule of the table that fits, as the tests of the loop find it. -/
theorem firstRule_normalRules :
    firstRule normalRules (c :: rest) =
      if c = 0x0D then some (if rest[0]? = some 0x0A then crlfRule else crRule)
      else if c = 0xC2 ∧ rest[0]? = some 0xA0 then some noBreakSpaceRule
      else if c = 0xE2 ∧ rest[0]? = some 0x80 then
        rest[1]?.bind fun c2 =>
          if isWideSpace c2 then some (wideSpaceRule c2)
          else if isLineSeparator c2 then some (lineSeparatorRule c2)
          else none
      else if c = 0xE2 ∧ rest[0]? = some 0x81 ∧ rest[1]? = some 0xA0 then some wordJoinerRule
      else none := by
  rw [normalRules, firstRule_append, firstRule_append, firstRule_append,
    firstRule_family (f := wideSpaceRule) fun _ => rfl,
    firstRule_family (f := lineSeparatorRule) fun _ => rfl]
  simp only [firstRule_cons, firstRule_nil, ← isWideSpace_iff, ← isLineSeparator_iff]
  rcases rest with _ | ⟨b, _ | ⟨d, rest⟩⟩ <;>
    simp [crlfRule, crRule, noBreakSpaceRule, wordJoinerRule] <;> grind

/-- **A turn of the loop is what the table says.** -/
theorem normalizeTurn_eq (c : UInt8) (rest : List UInt8) :
    normalizeTurn c rest =
      (firstRule normalRules (c :: rest)).elim (c, 1) fun r => (r.item, r.seq.length) := by
  rw [firstRule_normalRules, normalizeTurn]
  by_cases hcr : c = 0x0D
  · by_cases hlf : rest[0]? = some 0x0A <;> simp [hcr, hlf, crlfRule, crRule]
  by_cases hnb : c = 0xC2 ∧ rest[0]? = some 0xA0
  · simp [hnb, noBreakSpaceRule]
  by_cases hwide : c = 0xE2 ∧ rest[0]? = some 0x80
  · -- the byte behind `E2 80` decides, if there is one
    obtain ⟨rfl, hb⟩ := hwide
    cases hd : rest[1]? with
    | none => simp [hb]
    | some d =>
      cases hs : isWideSpace d <;> cases hl : isLineSeparator d <;>
        simp [hb, hs, hl, wideSpaceRule, lineSeparatorRule]
  · by_cases hwj : c = 0xE2 ∧ rest[0]? = some 0x81 ∧ rest[1]? = some 0xA0
    · simp [hwj, wordJoinerRule]
    · simp only [hcr, hnb, hwj, if_false]
      rw [if_neg fun h => hwide ⟨h.1, h.2.1⟩, if_neg fun h => hwide ⟨h.1, h.2.1⟩, if_neg hwide]
      rfl

/-- **The loop of `normalize_source` is `replaceAll` with the table.** -/
theorem normalizeLoop_eq (src : List UInt8) :
    normalizeLoop src = replaceAll normalRules src := by
  induction hn : src.length using Nat.strong_induction_on generalizing src with
  | _ n ih =>
    subst hn
    cases src with
    | nil => simp [normalizeLoop]
    | cons c rest =>
      rw [normalizeLoop, ih _ (by simp only [List.length_drop, List.length_cons]; omega) _ rfl,
        normalizeTurn_eq, replaceAll]
      cases firstRule normalRules (c :: rest) <;> rfl

/-! ## The normal form -/

/-- The characters that `normalize_source` writes as a blank or a line end: the no-break
space, `U+2000` to `U+200D`, `U+2028`, `U+2029`, `U+202F` and `U+2060`. -/
def replacedChars : List Char :=
  ['\u00A0', '\u2000', '\u2001', '\u2002', '\u2003', '\u2004', '\u2005', '\u2006', '\u2007',
    '\u2008', '\u2009', '\u200A', '\u200B', '\u200C', '\u200D', '\u2028', '\u2029', '\u202F',
    '\u2060']

/-- What holds of every source text and what is made of it. -/
structure Normalized (src out : List UInt8) : Prop where
  /-- No more is written than the block allocated for `out` holds beside the final `'\0'`. -/
  length_le : out.length ≤ src.length
  no_return : 0x0D ∉ out
  no_space : ∀ ch ∈ replacedChars, ¬ String.utf8EncodeChar ch <:+: out
  /-- Behind the mark, the sequences of the table are replaced and all other bytes kept. -/
  replaces : ∃ text, (src = byteOrderMark ++ text ∨ src = text ∧ ¬ byteOrderMark <+: src) ∧
    Replaces normalRules text out

/-- The text is a normal form of the source text: it is also left as it is by a second run. -/
structure NormalFormOf (src out : List UInt8) : Prop extends Normalized src out where
  no_mark : ¬ byteOrderMark <+: out
  stable : normalizeSource out = out

theorem normalRules_longestFirst : LongestFirst normalRules := by
  unfold LongestFirst normalRules
  decide

/-- Only the line end of two bytes has a byte that the table writes. -/
theorem unwritten_of_mem :
    ∀ r ∈ normalRules, r.seq = crlfRule.seq ∨ Unwritten normalRules r.seq := by
  unfold Unwritten
  decide

theorem unwritten_byteOrderMark : Unwritten normalRules byteOrderMark := by
  unfold Unwritten
  decide

/-- Every character that is replaced has a rule. -/
theorem exists_rule_of_mem_replacedChars :
    ∀ ch ∈ replacedChars, ∃ r ∈ normalRules, r.seq = String.utf8EncodeChar ch := by
  have hall : replacedChars.all (fun ch => normalRules.any fun r =>
      r.seq == String.utf8EncodeChar ch) = true := by decide
  simpa only [List.all_eq_true, List.any_eq_true, beq_iff_eq] using hall

/-- No sequence of the table is left by the loop. -/
theorem not_infix_normalizeLoop {r : Rule UInt8} (hr : r ∈ normalRules) :
    ¬ r.seq <:+: normalizeLoop src := by
  have hcr : ¬ crRule.seq <:+: normalizeLoop src := by
    rw [normalizeLoop_eq]
    exact not_infix_replaceAll (by simp [normalRules]) (by unfold Unwritten; decide)
  rcases unwritten_of_mem r hr with h | h
  · -- a line end of two bytes contains one of one byte
    rw [h]
    exact fun hin => hcr (List.IsInfix.trans ⟨[], [0x0A], rfl⟩ hin)
  · rw [normalizeLoop_eq]
    exact not_infix_replaceAll hr h

theorem carriageReturn_notMem_normalizeLoop : 0x0D ∉ normalizeLoop src := by
  intro hmem
  obtain ⟨before, after, h⟩ := List.append_of_mem hmem
  have hcr : ¬ crRule.seq <:+: normalizeLoop src :=
    not_infix_normalizeLoop (by simp [normalRules])
  refine hcr ?_
  rw [h]
  exact ⟨before, after, by simp [crRule]⟩

/-- The loop changes nothing in what it has written. -/
theorem normalizeLoop_normalizeLoop : normalizeLoop (normalizeLoop src) = normalizeLoop src := by
  rw [normalizeLoop_eq (normalizeLoop src)]
  exact replaceAll_eq_self fun r hr => not_infix_normalizeLoop hr

/-- The loop writes a mark at the front only where it reads one. -/
theorem prefix_normalizeLoop_iff :
    byteOrderMark <+: normalizeLoop src ↔ byteOrderMark <+: src := by
  constructor
  · rw [normalizeLoop_eq]
    exact prefix_of_prefix_replaceAll unwritten_byteOrderMark
  · rintro ⟨rest, rfl⟩
    simp [byteOrderMark, normalizeLoop, normalizeTurn]

theorem skipByteOrderMark_eq_self (h : ¬ byteOrderMark <+: src) :
    skipByteOrderMark src = src := by
  simp [skipByteOrderMark, h]

/-- A text with one mark at most at its front is read from behind the mark. -/
theorem prefix_skipByteOrderMark_iff :
    byteOrderMark <+: skipByteOrderMark src ↔ byteOrderMark ++ byteOrderMark <+: src := by
  by_cases h : byteOrderMark <+: src
  · obtain ⟨rest, rfl⟩ := h
    simp [skipByteOrderMark, byteOrderMark]
  · rw [skipByteOrderMark_eq_self h]
    exact iff_of_false h fun hpre => h ((List.prefix_append _ _).trans hpre)

/-- What is read from is the text behind its first mark. -/
theorem skipByteOrderMark_cases (src : List UInt8) :
    src = byteOrderMark ++ skipByteOrderMark src ∨
      src = skipByteOrderMark src ∧ ¬ byteOrderMark <+: src := by
  by_cases h : byteOrderMark <+: src
  · obtain ⟨rest, rfl⟩ := h
    left
    simp [skipByteOrderMark, byteOrderMark]
  · right
    exact ⟨(skipByteOrderMark_eq_self h).symm, h⟩

theorem length_skipByteOrderMark_le : (skipByteOrderMark src).length ≤ src.length := by
  unfold skipByteOrderMark
  split <;> simp

theorem normalized_normalizeSource (src : List UInt8) :
    Normalized src (normalizeSource src) := by
  refine ⟨?_, carriageReturn_notMem_normalizeLoop, ?_, ?_⟩
  · rw [normalizeSource, normalizeLoop_eq]
    exact (length_replaceAll_le _ _).trans length_skipByteOrderMark_le
  · intro ch hch
    obtain ⟨r, hr, hseq⟩ := exists_rule_of_mem_replacedChars ch hch
    rw [← hseq]
    exact not_infix_normalizeLoop hr
  · refine ⟨skipByteOrderMark src, skipByteOrderMark_cases src, ?_⟩
    rw [normalizeSource, normalizeLoop_eq]
    exact replaces_replaceAll normalRules_longestFirst _

/-- **A source text is made into a text without the sequences of the table, with all other
bytes in their order.  It is a normal form unless the source text begins with two byte-order
marks**, of which only the first is dropped. -/
theorem normalizeSource_normalForm (src : List UInt8) :
    Normalized src (normalizeSource src) ∧
      (NormalFormOf src (normalizeSource src) ↔ ¬ byteOrderMark ++ byteOrderMark <+: src) := by
  refine ⟨normalized_normalizeSource src, ?_⟩
  rw [← prefix_skipByteOrderMark_iff, ← prefix_normalizeLoop_iff]
  constructor
  · intro h
    exact h.no_mark
  · intro hmark
    refine ⟨normalized_normalizeSource src, hmark, ?_⟩
    rw [normalizeSource, normalizeSource, skipByteOrderMark_eq_self hmark]
    exact normalizeLoop_normalizeLoop

/-- Two byte-order marks and nothing else. -/
theorem twoMarks_not_normal :
    ¬ NormalFormOf (byteOrderMark ++ byteOrderMark)
      (normalizeSource (byteOrderMark ++ byteOrderMark)) := by
  intro h
  apply h.no_mark
  simp [normalizeSource, skipByteOrderMark, byteOrderMark, normalizeLoop, normalizeTurn]

end BreadLang
