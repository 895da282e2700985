import BreadLang.Runtime.ValueOps
import Mathlib.Tactic.Ring

/-!
# Integer arithmetic

The arithmetic operators on two values of type `Int`.  The C code computes on `int64_t`
without looking at its operands, but for a divisor of zero.  It has a result exactly when
the mathematical one can be represented, and for `/` and `%` when the quotient can; then
the result is the mathematical one.

## Main results

* `breadBinaryOp_int`: the operators as functions of the mathematical results.
* `integerOp_lawful_iff`: the operands on which an operator is defined, exact and, for
  division, satisfies the law of the remainder.
-/

namespace BreadLang

/-- The integers that an `int64_t` represents. -/
abbrev IsInt64 (x : ℤ) : Prop := -2 ^ 63 ≤ x ∧ x < 2 ^ 63

/-! ### The quotient of two `int64_t` -/

theorem natAbs_tdiv_two_le {a b : ℤ} (hb : 2 ≤ b.natAbs) :
    2 * (a.tdiv b).natAbs ≤ a.natAbs := by
  have hdiv : (a.tdiv b).natAbs = a.natAbs / b.natAbs := Int.natAbs_tdiv a b
  have hle : a.natAbs / b.natAbs ≤ a.natAbs / 2 := Nat.div_le_div_left hb (by decide)
  omega

/-- The quotient of two `int64_t` is one, but for the least divided by `-1`. -/
theorem isInt64_tdiv_iff (a b : BreadInt) :
    IsInt64 (a.val.tdiv b.val) ↔ ¬(a.val = -2 ^ 63 ∧ b.val = -1) := by
  have ha := a.isInt64
  by_cases hneg : b.val = -1
  · rw [hneg, Int.tdiv_neg, Int.tdiv_one]
    omega
  by_cases hsmall : 2 ≤ b.val.natAbs
  · have hhalf := natAbs_tdiv_two_le (a := a.val) hsmall
    omega
  · have hcases : b.val = 0 ∨ b.val = 1 := by omega
    obtain hzero | hone := hcases
    · rw [hzero, Int.tdiv_zero]
      omega
    · rw [hone, Int.tdiv_one]
      omega

/-- The remainder by a divisor other than zero is smaller than it. -/
theorem natAbs_tmod_lt (a : ℤ) {b : ℤ} (hb : b ≠ 0) : (a.tmod b).natAbs < b.natAbs := by
  rw [Int.natAbs_tmod]
  exact Nat.mod_lt _ (Int.natAbs_pos.mpr hb)

theorem isInt64_tmod (a b : BreadInt) (hb : b.val ≠ 0) : IsInt64 (a.val.tmod b.val) := by
  have hlt := natAbs_tmod_lt a.val hb
  have hb64 := b.isInt64
  omega

theorem BreadInt.val_wrap {x : ℤ} (h : IsInt64 x) : (BreadInt.wrap x).val = x := by
  have hlow : -((2 ^ 64 : ℕ) : ℤ) ≤ x * 2 := by push_cast; omega
  have hhigh : x * 2 < ((2 ^ 64 : ℕ) : ℤ) := by push_cast; omega
  rw [BreadInt.wrap]
  exact Int.bmod_eq_of_le_mul_two hlow hhigh

/-! ### The operators -/

/-- The arithmetic operators. -/
def arithmeticOps : List Char := ['+', '-', '*', '/', '%']

/-- The result of an arithmetic operator in mathematics. -/
def exactResult (op : Char) (a b : ℤ) : ℤ :=
  match op with
  | '+' => a + b
  | '-' => a - b
  | '*' => a * b
  | '/' => a.tdiv b
  | '%' => a.tmod b
  | _ => 0

/-- Whether an operator divides. -/
def isDivision (op : Char) : Bool := op == '/' || op == '%'

/-- The integer that has to be representable for the C code to be defined: the result, and
for the remainder too the quotient, which the same instruction computes. -/
def workingResult (op : Char) (a b : ℤ) : ℤ :=
  if isDivision op then a.tdiv b else exactResult op a b

/-- What happens when it is not representable. -/
def overflow (op : Char) : UndefinedBehavior :=
  if isDivision op then .divisionTrap else .signedOverflow

theorem checkedInt64_eq (x : ℤ) :
    checkedInt64 x =
      if IsInt64 x then .ok (BreadInt.wrap x) else .error (.undefined .signedOverflow) := by
  by_cases hx : IsInt64 x
  · have hval : (⟨x, hx⟩ : BreadInt) = BreadInt.wrap x := by
      rw [BreadInt.mk.injEq]
      exact (BreadInt.val_wrap hx).symm
    rw [checkedInt64, dif_pos hx, if_pos hx, hval]
  · rw [checkedInt64, dif_neg hx, if_neg hx]

theorem checkedInt64_bind {α : Type} (g : BreadInt → α) (x : ℤ) :
    (do return g (← checkedInt64 x) : Exec α) =
      if IsInt64 x then .ok (g (BreadInt.wrap x)) else .error (.undefined .signedOverflow) := by
  rw [checkedInt64_eq]
  split <;> rfl

theorem divInt64_bind {α : Type} (g : BreadInt → α) (f : ℤ → ℤ → ℤ) (a b : BreadInt) :
    (do return g (← divInt64 f a b) : Exec α) =
      if IsInt64 (a.val.tdiv b.val) then .ok (g (BreadInt.wrap (f a.val b.val)))
      else .error (.undefined .divisionTrap) := by
  rw [divInt64]
  split <;> rfl

/-- The operators on integers: the mathematical result when the computation is defined. -/
theorem breadBinaryOp_int (ops : DoubleOps) (op : Char) (a b : BreadInt)
    (hop : op ∈ arithmeticOps) (hb : isDivision op → b.val ≠ 0) :
    breadBinaryOp ops op (.int a) (.int b) =
      if IsInt64 (workingResult op a.val b.val) then
        .ok (.int (BreadInt.wrap (exactResult op a.val b.val)))
      else .error (.undefined (overflow op)) := by
  simp only [arithmeticOps, List.mem_cons, List.not_mem_nil, or_false] at hop
  obtain rfl | rfl | rfl | rfl | rfl := hop
  · exact checkedInt64_bind BreadValue.int (a.val + b.val)
  · exact checkedInt64_bind BreadValue.int (a.val - b.val)
  · exact checkedInt64_bind BreadValue.int (a.val * b.val)
  · have hne : (b.val == 0) = false := beq_false_of_ne (hb rfl)
    show breadIntArithmetic '/' a b = _
    rw [breadIntArithmetic, hne, Bool.and_false]
    exact divInt64_bind BreadValue.int Int.tdiv a b
  · have hne : (b.val == 0) = false := beq_false_of_ne (hb rfl)
    show breadIntArithmetic '%' a b = _
    rw [breadIntArithmetic, hne, Bool.and_false]
    exact divInt64_bind BreadValue.int Int.tmod a b

/-- That the computation is defined, in terms of the operands. -/
def OperandsFit (op : Char) (a b : BreadInt) : Prop :=
  match op with
  | '+' => IsInt64 (a.val + b.val)
  | '-' => IsInt64 (a.val - b.val)
  | '*' => IsInt64 (a.val * b.val)
  | _ => ¬(a.val = -2 ^ 63 ∧ b.val = -1)

theorem operandsFit_iff {op : Char} (a b : BreadInt) (hop : op ∈ arithmeticOps) :
    OperandsFit op a b ↔ IsInt64 (workingResult op a.val b.val) := by
  simp only [arithmeticOps, List.mem_cons, List.not_mem_nil, or_false] at hop
  obtain rfl | rfl | rfl | rfl | rfl := hop
  · exact Iff.rfl
  · exact Iff.rfl
  · exact Iff.rfl
  · exact (isInt64_tdiv_iff a b).symm
  · exact (isInt64_tdiv_iff a b).symm

/-! ### The laws -/

/-- An operator returns an integer, the mathematical result when that is an `int64_t`. -/
def ReturnsExact (ops : DoubleOps) (op : Char) (a b : BreadInt) : Prop :=
  ∃ n : BreadInt, breadBinaryOp ops op (.int a) (.int b) = .ok (.int n) ∧
    (IsInt64 (exactResult op a.val b.val) → n.val = exactResult op a.val b.val)

/-- `(a / b) * b + a % b = a`, with a remainder smaller than the divisor. -/
def DivisionLaw (ops : DoubleOps) (a b : BreadInt) : Prop :=
  ∃ q r : BreadInt,
    breadBinaryOp ops '/' (.int a) (.int b) = .ok (.int q) ∧
      breadBinaryOp ops '%' (.int a) (.int b) = .ok (.int r) ∧
        q.val * b.val + r.val = a.val ∧ |r.val| < |b.val|

/-- The integer arithmetic of an operator is defined and lawful at two operands. -/
structure IntegerOpLawful (ops : DoubleOps) (op : Char) (a b : BreadInt) : Prop where
  returnsExact : ReturnsExact ops op a b
  divisionLaw : isDivision op → DivisionLaw ops a b

theorem returnsExact_iff (ops : DoubleOps) {op : Char} (a b : BreadInt)
    (hop : op ∈ arithmeticOps) (hb : isDivision op → b.val ≠ 0) :
    ReturnsExact ops op a b ↔ OperandsFit op a b := by
  rw [operandsFit_iff a b hop, ReturnsExact, breadBinaryOp_int ops op a b hop hb]
  constructor
  · rintro ⟨n, hrun, _⟩
    by_contra hfit
    rw [if_neg hfit] at hrun
    cases hrun
  · intro hfit
    exact ⟨_, if_pos hfit, fun hexact => BreadInt.val_wrap hexact⟩

theorem divisionLaw (ops : DoubleOps) (a b : BreadInt) (hb : b.val ≠ 0)
    (hfit : IsInt64 (a.val.tdiv b.val)) : DivisionLaw ops a b := by
  have hquot := breadBinaryOp_int ops '/' a b (by decide) (fun _ => hb)
  have hrem := breadBinaryOp_int ops '%' a b (by decide) (fun _ => hb)
  refine ⟨_, _, hquot.trans (if_pos hfit), hrem.trans (if_pos hfit), ?_, ?_⟩
  · show (BreadInt.wrap (a.val.tdiv b.val)).val * b.val +
      (BreadInt.wrap (a.val.tmod b.val)).val = a.val
    rw [BreadInt.val_wrap hfit, BreadInt.val_wrap (isInt64_tmod a b hb)]
    exact Int.tdiv_mul_add_tmod a.val b.val
  · show |(BreadInt.wrap (a.val.tmod b.val)).val| < |b.val|
    rw [BreadInt.val_wrap (isInt64_tmod a b hb), Int.abs_eq_natAbs, Int.abs_eq_natAbs]
    exact_mod_cast natAbs_tmod_lt a.val hb

/-- For all operands: an operator on integers returns, with the mathematical result and the
law of the remainder, exactly when the sum, difference or product fits in 64 bits, or when
it does not divide the least integer by `-1`. -/
theorem integerOp_lawful_iff (ops : DoubleOps) (op : Char) (a b : BreadInt)
    (hop : op ∈ arithmeticOps) (hb : isDivision op → b.val ≠ 0) :
    IntegerOpLawful ops op a b ↔ OperandsFit op a b := by
  constructor
  · intro h
    exact (returnsExact_iff ops a b hop hb).mp h.returnsExact
  · intro hfit
    refine ⟨(returnsExact_iff ops a b hop hb).mpr hfit, fun hdiv => ?_⟩
    have hworking := (operandsFit_iff a b hop).mp hfit
    rw [workingResult, if_pos hdiv] at hworking
    exact divisionLaw ops a b (hb hdiv) hworking

/-- The largest `int64_t`. -/
def int64Max : BreadInt := ⟨2 ^ 63 - 1, by decide⟩

/-- The least `int64_t`. -/
def int64Min : BreadInt := ⟨-2 ^ 63, by decide⟩

theorem integerOp_lawful_remainder :
    IntegerOpLawful noDoubles '%' (BreadInt.wrap (-7)) 2 ↔ OperandsFit '%' (BreadInt.wrap (-7)) 2 :=
  integerOp_lawful_iff noDoubles '%' (BreadInt.wrap (-7)) 2 (by decide) (by decide)

/-- The least integer divided by `-1` traps, and the largest plus one overflows. -/
theorem integerOp_not_lawful :
    ¬IntegerOpLawful noDoubles '/' int64Min (BreadInt.wrap (-1)) ∧
      ¬IntegerOpLawful noDoubles '+' int64Max 1 := by
  constructor
  · intro h
    exact (returnsExact_iff noDoubles _ _ (by decide) (by decide)).mp h.returnsExact ⟨rfl, rfl⟩
  · intro h
    have hfit := (returnsExact_iff noDoubles _ _ (by decide) (by decide)).mp h.returnsExact
    exact absurd hfit.2 (by decide)

end BreadLang
