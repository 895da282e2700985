import Mathlib.Algebra.Group.Nat.Defs
import Mathlib.Data.Int.Init
import Mathlib.Data.List.TakeWhile

/-!
# Decimal text

The decimal text of an integer, as `printf` writes it, and `strtol` with base 10, which skips
white space, reads a sign and digits, and brings the value into the range of its type.  What
`strtol` reads in the text of an integer is that integer, brought into the range.
-/

namespace BreadLang

namespace Decimal

/-- The text of an integer. -/
def text (n : ℤ) : List Char :=
  if n < 0 then '-' :: Nat.toDigits 10 n.natAbs else Nat.toDigits 10 n.natAbs

/-- `isspace`. -/
def isSpace (c : Char) : Bool :=
  c ∈ [' ', '\t', '\n', Char.ofNat 11, Char.ofNat 12, '\r']

/-- Whether a text has a minus sign, and what is behind the sign. -/
def takeSign (s : List Char) : Bool × List Char :=
  if s.head? = some '-' then (true, s.tail)
  else if s.head? = some '+' then (false, s.tail)
  else (false, s)

/-- The value brought into a range. -/
def clamp (low high n : ℤ) : ℤ :=
  max low (min high n)

/-- `strtol` with base 10 and the range of its type: the value, and the text at `endptr`. -/
def strtol (low high : ℤ) (s : List Char) : ℤ × List Char :=
  let signed := takeSign (s.dropWhile isSpace)
  let digits := signed.2.takeWhile Char.isDigit
  if digits = [] then (0, s)
  else
    let magnitude : ℤ := Nat.ofDigitChars 10 digits 0
    (clamp low high (if signed.1 then -magnitude else magnitude),
      signed.2.dropWhile Char.isDigit)

variable {low high n : ℤ} {k : ℕ}

theorem isDigit_of_mem {c : Char} (h : c ∈ Nat.toDigits 10 k) : c.isDigit = true :=
  Nat.isDigit_of_mem_toDigits (by decide) (by decide) h

theorem ne_of_isDigit {c d : Char} (hc : c.isDigit = true) (hd : d.isDigit = false) : c ≠ d := by
  rintro rfl
  rw [hc] at hd
  exact absurd hd (by decide)

theorem not_isSpace_of_isDigit {c : Char} (h : c.isDigit = true) : isSpace c = false := by
  have hne : ∀ d ∈ [' ', '\t', '\n', Char.ofNat 11, Char.ofNat 12, '\r'], c ≠ d := by
    intro d hd
    apply ne_of_isDigit h
    simp only [List.mem_cons, List.not_mem_nil, or_false] at hd
    rcases hd with rfl | rfl | rfl | rfl | rfl | rfl <;> decide
  rw [isSpace, decide_eq_false_iff_not]
  exact fun hmem => hne c hmem rfl

/-- The digits of a number begin with a digit. -/
theorem exists_toDigits_cons (k : ℕ) :
    ∃ c rest, Nat.toDigits 10 k = c :: rest ∧ c.isDigit = true := by
  obtain ⟨c, rest, h⟩ := List.exists_cons_of_ne_nil (Nat.toDigits_ne_nil (n := k) (b := 10))
  exact ⟨c, rest, h, isDigit_of_mem (k := k) (by rw [h]; exact List.mem_cons_self)⟩

/-- A text of digits has no sign. -/
theorem takeSign_toDigits : takeSign (Nat.toDigits 10 k) = (false, Nat.toDigits 10 k) := by
  obtain ⟨c, rest, h, hc⟩ := exists_toDigits_cons k
  have hminus : c ≠ '-' := ne_of_isDigit hc (by decide)
  have hplus : c ≠ '+' := ne_of_isDigit hc (by decide)
  simp [h, takeSign, hminus, hplus]

/-- No white space is skipped in front of the text of an integer. -/
theorem dropWhile_isSpace_text : (text n).dropWhile isSpace = text n := by
  unfold text
  split
  · rw [List.dropWhile_cons_of_neg (by decide)]
  · obtain ⟨c, rest, h, hc⟩ := exists_toDigits_cons n.natAbs
    rw [h, List.dropWhile_cons_of_neg (by simp [not_isSpace_of_isDigit hc])]

theorem takeSign_text : takeSign (text n) = (decide (n < 0), Nat.toDigits 10 n.natAbs) := by
  unfold text
  split
  · next h => simp [takeSign, h]
  · next h => rw [takeSign_toDigits]; simp [h]

/-- **`strtol` reads the text of an integer as that integer, brought into its range.** -/
theorem strtol_text (low high n : ℤ) : strtol low high (text n) = (clamp low high n, []) := by
  have hall : ∀ c ∈ Nat.toDigits 10 n.natAbs, c.isDigit = true := fun c hc => isDigit_of_mem hc
  have htake : (Nat.toDigits 10 n.natAbs).takeWhile Char.isDigit = Nat.toDigits 10 n.natAbs :=
    List.takeWhile_eq_self_iff.mpr hall
  have hdrop : (Nat.toDigits 10 n.natAbs).dropWhile Char.isDigit = [] :=
    List.dropWhile_eq_nil_iff.mpr hall
  have hvalue : (if decide (n < 0) = true then -(n.natAbs : ℤ) else (n.natAbs : ℤ)) = n := by
    by_cases h : n < 0
    · rw [if_pos (decide_eq_true h)]
      omega
    · rw [if_neg (by simpa using h)]
      omega
  simp only [strtol, dropWhile_isSpace_text, takeSign_text, htake, hdrop,
    if_neg Nat.toDigits_ne_nil, Nat.ofDigitChars_ten_toDigits, hvalue]

theorem clamp_of_mem (h : low ≤ n ∧ n ≤ high) : clamp low high n = n := by
  unfold clamp
  omega

/-- A bound on the length of the text of an integer. -/
theorem length_text_le (hk : 0 < k) (h : n.natAbs < 10 ^ k) : (text n).length ≤ k + 1 := by
  have hdigits := (Nat.length_toDigits_le_iff (b := 10) (by decide) hk).mpr h
  unfold text
  split
  · simpa using hdigits
  · omega

/-- The text of an integer has digits and a minus sign only. -/
theorem notMem_text {c : Char} (hc : c.isDigit = false) (hsign : c ≠ '-') : c ∉ text n := by
  intro hmem
  unfold text at hmem
  split at hmem
  · rcases List.mem_cons.mp hmem with h | h
    · exact hsign h
    · exact ne_of_isDigit (isDigit_of_mem h) hc rfl
  · exact ne_of_isDigit (isDigit_of_mem hmem) hc rfl

end Decimal

end BreadLang
