import BreadLang.Runtime.ValueOps
import BreadLang.Runtime.Vars

/-!
# The errors of the operators

`bread_binary_op` and `bread_unary_not` with the error that they record when they
return zero, on all values that an operator can meet: those of `BreadValue`, and those
of type `Float`, which `ValueOps` leaves out.  `fst_binaryOperator` says that the value
in the result is that of `breadBinaryOp`.
-/

namespace BreadLang

/-- A value that an operator is applied to. -/
inductive Operand where
  | value (v : BreadValue)
  | float (f : FloatBits)
  deriving DecidableEq

/-- The tag of a value. -/
def Operand.type : Operand → VarType
  | .value v => v.type
  | .float _ => .typeFloat

/-- The operations of the machine on `float`s. -/
structure FloatOps where
  toDouble : FloatBits → DoubleBits
  eq : FloatBits → FloatBits → Bool
  lt : FloatBits → FloatBits → Bool

/-- What an operator leaves in its result, and the error that it records when it returns
zero. -/
abbrev Recorded := Operand × Option BreadError

/-- A return of zero with `BREAD_ERROR_SET_TYPE_MISMATCH`. -/
def typeMismatch (message : String) : Exec Recorded :=
  .ok (.value .nil, some ⟨.typeMismatch, message⟩)

/-- A return of one. -/
def succeed (v : BreadValue) : Exec Recorded :=
  .ok (.value v, none)

section Operators

variable (ops : DoubleOps) (floatOps : FloatOps)

/-- `bread_value_as_double`, on a number. -/
def Operand.asDouble : Operand → Option DoubleBits
  | .value v => v.asDouble ops
  | .float f => some (floatOps.toDouble f)

/-- `bread_add`. -/
def addOperator (left right : Operand) : Exec Recorded :=
  match left, right with
  | .value (.string a), .value (.string b) => succeed (.string (a ++ b))
  | .value (.int a), .value (.int b) => do
      succeed (.int (← checkedInt64 (a.val + b.val)))
  | _, _ =>
      if left.type == .typeString || right.type == .typeString then
        typeMismatch "Cannot concatenate string with non-string"
      else
        match left.asDouble ops floatOps, right.asDouble ops floatOps with
        | some l, some r => succeed (.double (ops.add l r))
        | _, _ => typeMismatch "Invalid operand types for arithmetic operation"

/-- `bread_arithmetic_op`. -/
def arithmeticOperator (op : Char) (left right : Operand) : Exec Recorded :=
  match left, right with
  | .value (.int a), .value (.int b) => do
      succeed (← breadIntArithmetic op a b)
  | _, _ =>
      match left.asDouble ops floatOps, right.asDouble ops floatOps with
      | some l, some r =>
          if op == '%' then
            typeMismatch "Modulo operation not supported for floating point numbers"
          else do
            succeed (← breadDoubleArithmetic ops op l r)
      | _, _ => typeMismatch "Invalid operand types for arithmetic operation"

/-- The float case of `bread_compare_values`. -/
def compareFloats (op : Char) (a b : FloatBits) : Option Bool :=
  match op with
  | '=' => some (floatOps.eq a b)
  | '!' => some !(floatOps.eq a b)
  | '<' => some (floatOps.lt a b)
  | '>' => some (floatOps.lt b a)
  | 'l' => some (floatOps.lt a b || floatOps.eq a b)
  | 'g' => some (floatOps.lt b a || floatOps.eq a b)
  | _ => none

/-- The types that `bread_compare_values` compares as pointers. -/
def VarType.isComplex : VarType → Bool
  | .typeArray | .typeDict | .typeOptional | .typeStruct | .typeClass => true
  | _ => false

/-- The comparison of two values of one type. -/
def compareOperands (op : Char) : Operand → Operand → Option Bool
  | .float a, .float b => compareFloats floatOps op a b
  | .value a, .value b => breadCompareValues ops op a b
  | _, _ => none

/-- The end of a comparison. -/
def compareResult : Option Bool → Exec Recorded
  | some b => succeed (.bool b)
  | none => .ok (.value .nil, none)

/-- `bread_compare_values`, with the result of the comparison as a value. -/
def compareOperator (op : Char) (left right : Operand) : Exec Recorded :=
  if left.type != right.type then typeMismatch "Cannot compare different types"
  else if left.type == .typeNil then typeMismatch "Cannot compare this type"
  else if left.type.isComplex && op != '=' && op != '!' then
    typeMismatch "Complex types only support == and != comparison"
  else compareResult (compareOperands ops floatOps op left right)

/-- The logical operators of `bread_binary_op`. -/
def logicalOperator (op : Char) (left right : Operand) : Exec Recorded :=
  match left, right with
  | .value (.bool a), .value (.bool b) => succeed (.bool (if op == '&' then a && b else a || b))
  | _, _ => typeMismatch "Logical operations require boolean operands"

/-- `bread_binary_op`. -/
def binaryOperator (op : Char) (left right : Operand) : Exec Recorded :=
  if op == '+' then addOperator ops floatOps left right
  else if op == '-' || op == '*' || op == '/' || op == '%' then
    arithmeticOperator ops floatOps op left right
  else if op == '=' || op == '!' || op == '<' || op == '>' || op == 'l' || op == 'g' then
    compareOperator ops floatOps op left right
  else if op == '&' || op == '|' then logicalOperator op left right
  else .error (.abort ⟨.runtimeError, unknownOperatorMessage op⟩)

/-- `bread_unary_not`. -/
def notOperator : Operand → Exec Recorded
  | .value (.bool b) => succeed (.bool !b)
  | _ => typeMismatch "Logical NOT requires boolean operand"

/-- The unary operators, as the code generator builds them: `-` subtracts from zero. -/
def unaryOperator (op : Char) (operand : Operand) : Exec Recorded :=
  if op == '!' then notOperator operand
  else binaryOperator ops floatOps '-' (.value (.int 0)) operand

end Operators

/-! ### The operators of `ValueOps` -/

section Values

variable {ops : DoubleOps} {floatOps : FloatOps}

theorem fst_addOperator (l r : BreadValue) :
    (addOperator ops floatOps (.value l) (.value r)).map Prod.fst =
      (breadAdd ops l r).map Operand.value := by
  cases l with
  | int a =>
      cases r with
      | int b =>
          show (checkedInt64 _ >>= fun n => succeed (.int n)).map Prod.fst =
            (checkedInt64 _ >>= fun n => pure (.int n)).map Operand.value
          cases checkedInt64 (a.val + b.val) <;> rfl
      | _ => rfl
  | _ => cases r <;> rfl

theorem fst_arithmeticOperator {op : Char} (l r : BreadValue) :
    (arithmeticOperator ops floatOps op (.value l) (.value r)).map Prod.fst =
      (breadArithmeticOp ops op l r).map Operand.value := by
  have hdouble : ∀ a b : DoubleBits,
      Except.map Prod.fst (if op == '%' then
          typeMismatch "Modulo operation not supported for floating point numbers"
        else breadDoubleArithmetic ops op a b >>= succeed) =
        (breadDoubleArithmetic ops op a b).map Operand.value := by
    intro a b
    by_cases hop : op = '%'
    · subst hop
      rfl
    · rw [if_neg (by simpa using hop)]
      cases breadDoubleArithmetic ops op a b <;> rfl
  cases l with
  | int a =>
      cases r with
      | int b =>
          show (breadIntArithmetic op a b >>= succeed).map Prod.fst =
            (breadIntArithmetic op a b).map Operand.value
          cases breadIntArithmetic op a b <;> rfl
      | double d => exact hdouble _ _
      | _ => rfl
  | double d =>
      cases r with
      | int b => exact hdouble _ _
      | double e => exact hdouble _ _
      | _ => rfl
  | _ => cases r <;> rfl

theorem compareValues_of_type_ne {op : Char} {l r : BreadValue} (h : l.type ≠ r.type) :
    breadCompareValues ops op l r = none := by
  cases l <;> cases r <;> first | rfl | exact absurd rfl h

theorem compareRefs_of_ne {op : Char} (heq : op ≠ '=') (hne : op ≠ '!') (a b : Ref) :
    compareRefs op a b = none := by
  unfold compareRefs
  split
  · contradiction
  · contradiction
  · rfl

theorem compareValues_of_isComplex {op : Char} {l r : BreadValue} (h : l.type.isComplex = true)
    (heq : op ≠ '=') (hne : op ≠ '!') : breadCompareValues ops op l r = none := by
  cases l with
  | array a => cases r <;> first | rfl | exact compareRefs_of_ne heq hne ..
  | dict a => cases r <;> first | rfl | exact compareRefs_of_ne heq hne ..
  | optional a => cases r <;> first | rfl | exact compareRefs_of_ne heq hne ..
  | struct a => cases r <;> first | rfl | exact compareRefs_of_ne heq hne ..
  | «class» a => cases r <;> first | rfl | exact compareRefs_of_ne heq hne ..
  | _ => cases h

theorem fst_compareOperator {op : Char} (l r : BreadValue) :
    (compareOperator ops floatOps op (.value l) (.value r)).map Prod.fst =
      .ok (.value ((breadCompareValues ops op l r).elim .nil .bool)) := by
  unfold compareOperator
  split
  · rename_i h
    rw [compareValues_of_type_ne (by simpa [Operand.type] using h)]
    rfl
  split
  · rename_i htype hnil
    have hl : l = .nil := by
      cases l with
      | nil => rfl
      | _ => cases hnil
    subst hl
    cases r <;> rfl
  split
  · rename_i h
    simp only [Bool.and_eq_true, bne_iff_ne] at h
    rw [compareValues_of_isComplex h.1.1 h.1.2 h.2]
    rfl
  · show (compareResult (breadCompareValues ops op l r)).map Prod.fst = _
    cases breadCompareValues ops op l r <;> rfl

/-- **The value that an operator leaves in its result** is that of `breadBinaryOp`. -/
theorem fst_binaryOperator (op : Char) (l r : BreadValue) :
    (binaryOperator ops floatOps op (.value l) (.value r)).map Prod.fst =
      (breadBinaryOp ops op l r).map Operand.value := by
  unfold binaryOperator breadBinaryOp
  split
  · exact fst_addOperator l r
  split
  · exact fst_arithmeticOperator l r
  split
  · exact fst_compareOperator l r
  split
  · cases l with
    | bool a => cases r <;> rfl
    | _ => rfl
  · rfl

/-- **The value that `bread_unary_not` leaves in its result.** -/
theorem fst_notOperator (v : BreadValue) :
    (notOperator (.value v)).map Prod.fst = .ok (.value (breadUnaryNot v)) := by
  cases v <;> rfl

end Values

end BreadLang
