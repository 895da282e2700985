import BreadLang.Codegen.UnboxedMeaning
import BreadLang.Compiler.ExprReading
import BreadLang.Runtime.RangeCreate

/-!
# The value of an integer literal

A literal is a string of digits in the source, an `int_val` in the tree and an `i64` in the
code.  `parse_number` converts the digits with `atoi`, whose result is an `int`; the other two
steps have room for every `Int`.  So a literal keeps its value exactly below 2^31, although the
numbers of the language go up to 2^63.
-/

namespace BreadLang

open Stateful Parse

section Literals

variable (p : Parser) (b : Builder) (env : Env) (cg : Cg) (fn : Option CgCallee)

/-- The digits are read as one expression, whose code computes the number `n`. -/
def LiteralDenotes (digits : List Char) (n : ℕ) : Prop :=
  ∃ e c k, Reads p.expression digits e [] ∧ Yields (b.expr fn e) cg c ∧
    c.evalBoxed env = .ok (.int k) ∧ k.val = n

/-- The digits are refused. -/
def LiteralRefused (digits : List Char) : Prop :=
  ∃ rest, Fails p.expression digits rest

/-- **A literal keeps its value**: where it is an `Int` it denotes itself, and where it is not
it is refused. -/
structure LiteralKept (digits : List Char) : Prop where
  denotes : digitsValue digits < 2 ^ 63 → digits.length < maxTokenLen →
    LiteralDenotes p b env cg fn digits (digitsValue digits)
  refused : 2 ^ 63 ≤ digitsValue digits → LiteralRefused p digits

end Literals

/-- The result of `atoi` is an `int`, also where the number is none. -/
def Conversions.Bounded (conversions : Conversions) : Prop :=
  ∀ digits, IsInt32 (conversions.atoiOverflow digits).val

section Digits

variable {conversions : Conversions} {digits : List Char}

theorem atoi_of_fits (h : digitsValue digits < 2 ^ 31) :
    (atoi conversions digits).val = digitsValue digits := by
  have hle : (digitsValue digits : ℤ) ≤ intMax := by
    rw [intMax]
    omega
  rw [atoi, if_pos hle]
  exact BreadInt.val_wrap (by omega)

theorem atoi_lt (hconversions : conversions.Bounded) (digits : List Char) :
    (atoi conversions digits).val < 2 ^ 31 := by
  by_cases hle : (digitsValue digits : ℤ) ≤ intMax
  · rw [intMax] at hle
    rw [atoi_of_fits (by omega)]
    omega
  · rw [atoi, if_neg hle]
    have hbound := (hconversions digits).2
    rw [intMax] at hbound
    omega

end Digits

/-! ### Parsing and lowering a literal -/

theorem digit_ne_sign {c : Char} {source : List Char} (hc : c.isDigit = true) :
    ∀ d, (c :: source).head? = some d → d ≠ '!' ∧ d ≠ '-' := by
  rintro d hd
  obtain rfl := Option.some.inj hd
  exact ⟨digit_ne hc rfl, digit_ne hc rfl⟩

theorem parser_conversions (conversions : Conversions) (calls : ℕ) :
    (parser conversions calls).conversions = conversions := by
  cases calls with
  | zero => rfl
  | succ calls => rfl

section Parsing

variable {conversions : Conversions} {digits : List Char} (calls : ℕ) (hne : digits ≠ [])
  (hdigits : ∀ c ∈ digits, c.isDigit = true)
include hne hdigits

/-- Digits below the limit of a token become an `int` node. -/
theorem reads_literal (hlength : digits.length < maxTokenLen) :
    Reads (parser conversions (calls + 1)).expression digits (.int (atoi conversions digits))
      [] := by
  have hnumber := reads_number (p := parser conversions calls) [] hne hdigits
    (fun c hc => by cases hc) hlength
  rw [List.append_nil, parser_conversions] at hnumber
  obtain ⟨c, digits, rfl⟩ := List.exists_cons_of_ne_nil hne
  have hc := hdigits c List.mem_cons_self
  have hunary := reads_unary_of_primary (startsToken_digit hc) (digit_ne_sign hc)
    ((parsePrimary_digit hc).reads hnumber)
    (.last (reads_postfixTurn_last startsToken_nil endsPostfix_nil)) rfl
  exact reads_logicalOr_of_unary hunary (stops_nil 0)

/-- From the limit on they are refused. -/
theorem refused_literal (hlength : maxTokenLen ≤ digits.length) :
    LiteralRefused (parser conversions (calls + 1)) digits := by
  have hnumber := fails_number (p := parser conversions calls) [] hne hdigits
    (fun c hc => by cases hc) hlength
  rw [List.append_nil] at hnumber
  obtain ⟨c, digits, rfl⟩ := List.exists_cons_of_ne_nil hne
  have hc := hdigits c List.mem_cons_self
  have hunary := fails_unary_of_primary (startsToken_digit hc) (digit_ne_sign hc)
    ((parsePrimary_digit hc).fails hnumber) startsToken_nil endsPostfix_nil
  exact ⟨[], fails_logicalOr_of_unary hunary⟩

end Parsing

/-- The code of an `int` node computes its value. -/
theorem evalBoxed_int (env : Env) (cg : Cg) (fn : Option CgCallee) (k : BreadInt) :
    (lowered cg fn (.int k)).code.evalBoxed env = .ok (.int k) :=
  evalBoxed_of_eval (r := .ok (.int k)) (by rw [lowered, Lowered.code, eval_unary]; rfl)

section Value

variable {conversions : Conversions} (hconversions : conversions.Bounded) {digits : List Char}
  (hne : digits ≠ []) (hdigits : ∀ c ∈ digits, c.isDigit = true) {env : Env} {cg : Cg}
  {fn : Option CgCallee} {calls depth : ℕ}
include hconversions hne hdigits

/-- A number that is no `int` becomes another one, or is read although it is no `Int`. -/
theorem not_literalKept (hlarge : 2 ^ 31 ≤ digitsValue digits)
    (hlength : digits.length < maxTokenLen) :
    ¬LiteralKept (parser conversions (calls + 1)) (builder (depth + 3)) env cg fn digits := by
  intro hkept
  have hread : Reads (parser conversions (calls + 1)).expression digits _ [] :=
    reads_literal calls hne hdigits hlength
  by_cases hvalue : digitsValue digits < 2 ^ 63
  · obtain ⟨e, c, k, hexpression, hyields, heval, hk⟩ := hkept.denotes hvalue hlength
    obtain rfl := (hread.unique hexpression).1
    have hcode := hyields.unique (yields_expr (e := .int _) rfl (Nat.le_add_left 3 depth))
    have hlt := atoi_lt hconversions digits
    rw [hcode, evalBoxed_int] at heval
    cases heval
    omega
  · obtain ⟨rest, hfails⟩ := hkept.refused (Nat.not_lt.mp hvalue)
    exact hread.not_fails hfails

end Value

/-- **The value of a literal**: it is kept where the number is an `int`, or where there are too
many digits to be read at all. -/
theorem literal_kept_iff {conversions : Conversions} (hconversions : conversions.Bounded)
    {digits : List Char} (hne : digits ≠ []) (hdigits : ∀ c ∈ digits, c.isDigit = true)
    (env : Env) (cg : Cg) (fn : Option CgCallee) (calls depth : ℕ) :
    LiteralKept (parser conversions (calls + 1)) (builder (depth + 3)) env cg fn digits ↔
      digitsValue digits < 2 ^ 31 ∨ maxTokenLen ≤ digits.length := by
  constructor
  · intro hkept
    by_contra hcondition
    obtain ⟨hlarge, hlength⟩ := not_or.mp hcondition
    exact not_literalKept hconversions hne hdigits (Nat.not_lt.mp hlarge) (Nat.not_le.mp hlength)
      hkept
  · intro hcondition
    refine ⟨fun hvalue hlength => ?_, fun hvalue => ?_⟩
    · have hfits : digitsValue digits < 2 ^ 31 :=
        hcondition.resolve_right (Nat.not_le.mpr hlength)
      exact ⟨_, _, _, reads_literal calls hne hdigits hlength,
        yields_expr rfl (Nat.le_add_left 3 depth), evalBoxed_int env cg fn _, atoi_of_fits hfits⟩
    · exact refused_literal calls hne hdigits (hcondition.resolve_left (by omega))

/-- `atoi` by way of `strtol`, which stops at the largest `long`. -/
def truncatingConversions : Conversions where
  atoiOverflow digits := .wrap (toInt (min (digitsValue digits) (2 ^ 63 - 1)))
  strtod _ := ⟨0⟩

theorem truncatingConversions_bounded : truncatingConversions.Bounded := by
  intro digits
  have hint := isInt32_toInt (min (digitsValue digits) (2 ^ 63 - 1))
  rw [truncatingConversions, BreadInt.val_wrap hint.isInt64]
  exact hint

theorem largest_int_kept :
    LiteralKept (parser truncatingConversions 1) (builder 3) fiveEnv .init none
      "2147483647".toList :=
  (literal_kept_iff truncatingConversions_bounded (by decide) (by decide) fiveEnv .init none 0
    0).mpr (.inl (by decide))

/-- Three billions are read as a negative number. -/
theorem three_billions_lost :
    ¬LiteralKept (parser truncatingConversions 1) (builder 3) fiveEnv .init none
      "3000000000".toList ∧
    (atoi truncatingConversions "3000000000".toList).val = -1294967296 :=
  ⟨not_literalKept truncatingConversions_bounded (by decide) (by decide) (by decide) (by decide),
    by decide⟩

end BreadLang
