import BreadLang.Runtime.Equality
import BreadLang.Runtime.IntegerOps
import BreadLang.Runtime.RangeCreate

/-!
# The operators of the expression interpreter

`evaluate_binary_op` of `expr_ops.c`, and how far it agrees with the `bread_binary_op` of the
runtime.  It computes on `int64_t` too, but makes the result with a function that takes an
`int`, and it does not compare objects.

## Main results

* `operators_agree_iff`: the operands at which the two agree.
-/

namespace BreadLang

/-! ### The interpreter -/

/-- `ops_create_int_result`, whose parameter is an `int`. -/
def opsCreateIntResult (n : BreadInt) : Option BreadValue :=
  some (.int (.wrap (toInt n.val)))

/-- The concatenation at the beginning of `evaluate_binary_op`. -/
def evaluateConcat : BreadValue → BreadValue → Option BreadValue
  | .string a, .string b => some (.string (a ++ b))
  | _, _ => none

/-- The conversions of `evaluate_binary_op`: next to a double, an integer becomes one. -/
def promoteOperands (ops : DoubleOps) : BreadValue → BreadValue → BreadValue × BreadValue
  | .int a, .double b => (.double (ops.ofInt a), .double b)
  | .double a, .int b => (.double a, .double (ops.ofInt b))
  | left, right => (left, right)

/-- The arithmetic of `evaluate_binary_op` on doubles. -/
def evaluateDoubleArithmetic (ops : DoubleOps) (op : Char) (l r : DoubleBits) :
    Option BreadValue :=
  if op == '+' then some (.double (ops.add l r))
  else if op == '-' then some (.double (ops.sub l r))
  else if op == '*' then some (.double (ops.mul l r))
  else if op == '/' then if r.isZero then none else some (.double (ops.div l r))
  else none

/-- The arithmetic of `evaluate_binary_op` on integers. -/
def evaluateIntArithmetic (op : Char) (a b : BreadInt) : Exec (Option BreadValue) :=
  if op == '/' && b.val == 0 then .ok none
  else if op == '%' && b.val == 0 then .ok none
  else if op == '+' then do return opsCreateIntResult (← checkedInt64 (a.val + b.val))
  else if op == '-' then do return opsCreateIntResult (← checkedInt64 (a.val - b.val))
  else if op == '*' then do return opsCreateIntResult (← checkedInt64 (a.val * b.val))
  else if op == '/' then do return opsCreateIntResult (← divInt64 Int.tdiv a b)
  else if op == '%' then do return opsCreateIntResult (← divInt64 Int.tmod a b)
  else .ok none

/-- The arithmetic of `evaluate_binary_op`. -/
def evaluateArithmetic (ops : DoubleOps) (op : Char) :
    BreadValue → BreadValue → Exec (Option BreadValue)
  | .double l, .double r => .ok (evaluateDoubleArithmetic ops op l r)
  | .int a, .int b => evaluateIntArithmetic op a b
  | _, _ => .ok none

/-- The comparisons of `evaluate_binary_op`. -/
def evaluateComparison (ops : DoubleOps) (op : Char) : BreadValue → BreadValue → Option BreadValue
  | .double l, .double r => (compareDoubles ops op l r).map .bool
  | .int a, .int b => (compareOrdering op (compare a.val b.val)).map .bool
  | .bool a, .bool b => (compareOrdering op (compare a b)).map .bool
  | .string a, .string b => (compareOrdering op (strcmp (cString a) (cString b))).map .bool
  | _, _ => none

/-- The logical operations of `evaluate_binary_op`. -/
def evaluateLogical (op : Char) : BreadValue → BreadValue → Option BreadValue
  | .bool a, .bool b => some (.bool (if op == '&' then a && b else a || b))
  | _, _ => none

/-- `evaluate_binary_op`; `none` is a result with `is_error`. -/
def evaluateBinaryOp (ops : DoubleOps) (op : Char) (left right : BreadValue) :
    Exec (Option BreadValue) :=
  if op == '+' && (left.type == .typeString || right.type == .typeString) then
    .ok (evaluateConcat left right)
  else
    let operands := promoteOperands ops left right
    if op == '+' || op == '-' || op == '*' || op == '/' || op == '%' then
      evaluateArithmetic ops op operands.1 operands.2
    else if op == '=' || op == '!' || op == '<' || op == '>' || op == 'l' || op == 'g' then
      .ok (evaluateComparison ops op operands.1 operands.2)
    else if op == '&' || op == '|' then
      .ok (evaluateLogical op operands.1 operands.2)
    else
      .ok none

/-! ### Agreement -/

/-- An operation of the runtime reports an error: it leaves nil, or ends the process. -/
def ReportsError (r : Exec BreadValue) : Prop :=
  r = .ok .nil ∨ ∃ e, r = .error (.abort e)

/-- **The two operators agree** at an operator and two operands: both report an error, or both
have the same result. -/
def OperatorsAgree (ops : DoubleOps) (op : Char) (a b : BreadValue) : Prop :=
  (evaluateBinaryOp ops op a b = .ok none ∧ ReportsError (breadBinaryOp ops op a b)) ∨
    ∃ v, v ≠ .nil ∧ evaluateBinaryOp ops op a b = .ok (some v) ∧ breadBinaryOp ops op a b = .ok v

/-- The operands at which they should: the result of arithmetic on integers is an `int`, and
objects are not tested for equality. -/
structure WithinInterpreter (op : Char) (a b : BreadValue) : Prop where
  integers : ∀ m n : BreadInt, a = .int m → b = .int n → op ∈ arithmeticOps →
    (isDivision op → n.val ≠ 0) → OperandsFit op m n ∧ IsInt32 (exactResult op m.val n.val)
  objects : a.type = b.type → a.type.isObject = true → op ≠ '=' ∧ op ≠ '!'

/-! ### Integers -/

section Integers

variable {ops : DoubleOps} {op : Char} {m n : BreadInt}

/-- The interpreter's operators on integers. -/
theorem evaluateBinaryOp_int (hop : op ∈ arithmeticOps) (hn : isDivision op → n.val ≠ 0) :
    evaluateBinaryOp ops op (.int m) (.int n) =
      if IsInt64 (workingResult op m.val n.val) then
        .ok (opsCreateIntResult (BreadInt.wrap (exactResult op m.val n.val)))
      else .error (.undefined (overflow op)) := by
  simp only [arithmeticOps, List.mem_cons, List.not_mem_nil, or_false] at hop
  obtain rfl | rfl | rfl | rfl | rfl := hop
  · exact checkedInt64_bind opsCreateIntResult (m.val + n.val)
  · exact checkedInt64_bind opsCreateIntResult (m.val - n.val)
  · exact checkedInt64_bind opsCreateIntResult (m.val * n.val)
  · have hne : (n.val == 0) = false := beq_false_of_ne (hn rfl)
    show evaluateIntArithmetic '/' m n = _
    rw [evaluateIntArithmetic, hne, Bool.and_false, Bool.and_false]
    exact divInt64_bind opsCreateIntResult Int.tdiv m n
  · have hne : (n.val == 0) = false := beq_false_of_ne (hn rfl)
    show evaluateIntArithmetic '%' m n = _
    rw [evaluateIntArithmetic, hne, Bool.and_false, Bool.and_false]
    exact divInt64_bind opsCreateIntResult Int.tmod m n

/-- Where the computation is defined, its result is an `int64_t`. -/
theorem isInt64_exactResult (hop : op ∈ arithmeticOps) (hn : isDivision op → n.val ≠ 0)
    (hworking : IsInt64 (workingResult op m.val n.val)) :
    IsInt64 (exactResult op m.val n.val) := by
  simp only [arithmeticOps, List.mem_cons, List.not_mem_nil, or_false] at hop
  obtain rfl | rfl | rfl | rfl | rfl := hop
  · exact hworking
  · exact hworking
  · exact hworking
  · exact hworking
  · exact isInt64_tmod m n (hn rfl)

/-- The results are the same if the conversion to `int` keeps them. -/
theorem operatorsAgree_int_iff (hop : op ∈ arithmeticOps) (hn : isDivision op → n.val ≠ 0) :
    OperatorsAgree ops op (.int m) (.int n) ↔
      OperandsFit op m n ∧ IsInt32 (exactResult op m.val n.val) := by
  rw [OperatorsAgree, evaluateBinaryOp_int hop hn, breadBinaryOp_int ops op m n hop hn,
    operandsFit_iff m n hop]
  by_cases hworking : IsInt64 (workingResult op m.val n.val)
  · have hexact := isInt64_exactResult hop hn hworking
    rw [if_pos hworking, if_pos hworking, and_iff_right hworking, ← toInt_eq_self_iff]
    -- The conversion to `int` and back keeps the integers that an `int` has, and no others.
    constructor
    · rintro (⟨hnone, -⟩ | ⟨v, -, hleft, hright⟩)
      · cases hnone
      · cases hright
        have hsame := BreadValue.int.inj (Option.some.inj (Except.ok.inj hleft))
        have hval := congrArg BreadInt.val hsame
        rwa [BreadInt.val_wrap hexact, BreadInt.val_wrap (isInt32_toInt _).isInt64] at hval
    · intro hfits
      refine .inr ⟨_, (fun hnil : BreadValue.int _ = .nil => by cases hnil), ?_, rfl⟩
      rw [opsCreateIntResult, BreadInt.val_wrap hexact, hfits]
  · rw [if_neg hworking, if_neg hworking]
    refine iff_of_false ?_ fun h => hworking h.1
    rintro (⟨hnone, -⟩ | ⟨v, -, hleft, -⟩)
    · cases hnone
    · cases hleft

/-- Both report a division by zero. -/
theorem operatorsAgree_zero (hop : isDivision op = true) (hn : n.val = 0) :
    OperatorsAgree ops op (.int m) (.int n) := by
  have hdivision : op = '/' ∨ op = '%' := by
    rwa [isDivision, Bool.or_eq_true, beq_iff_eq, beq_iff_eq] at hop
  have hzero : (n.val == 0) = true := beq_iff_eq.mpr hn
  left
  obtain rfl | rfl := hdivision
  · refine ⟨?_, .inr ⟨⟨.divisionByZero, "Integer division by zero"⟩, ?_⟩⟩
    · show evaluateIntArithmetic '/' m n = _
      rw [evaluateIntArithmetic, hzero]
      rfl
    · show breadIntArithmetic '/' m n = _
      rw [breadIntArithmetic, hzero]
      rfl
  · refine ⟨?_, .inr ⟨⟨.divisionByZero, "Integer modulo by zero"⟩, ?_⟩⟩
    · show evaluateIntArithmetic '%' m n = _
      rw [evaluateIntArithmetic, hzero]
      rfl
    · show breadIntArithmetic '%' m n = _
      rw [breadIntArithmetic, hzero]
      rfl

end Integers

/-! ### Other operands -/

section Operands

variable {ops : DoubleOps} {op : Char} {a b : BreadValue}

theorem promoteOperands_eq (ha : a.type ≠ .typeDouble) (hb : b.type ≠ .typeDouble) :
    promoteOperands ops a b = (a, b) := by
  cases a with
  | double d => exact absurd rfl ha
  | int m =>
      cases b with
      | double d => exact absurd rfl hb
      | _ => rfl
  | _ => rfl

/-- Arithmetic takes two numbers. -/
theorem arithmetic_refused (ha : a.type ≠ .typeDouble) (hb : b.type ≠ .typeDouble)
    (hne : ¬ ∃ m n, a = .int m ∧ b = .int n) :
    evaluateArithmetic ops op a b = .ok none ∧ breadArithmeticOp ops op a b = .ok .nil := by
  cases a with
  | double d => exact absurd rfl ha
  | int m =>
      cases b with
      | double d => exact absurd rfl hb
      | int n => exact absurd ⟨m, n, rfl, rfl⟩ hne
      | _ => exact ⟨rfl, rfl⟩
  | _ => exact ⟨rfl, rfl⟩

/-- Two strings are concatenated; other operands that are no numbers are refused. -/
theorem operatorsAgree_add (ha : a.type ≠ .typeDouble) (hb : b.type ≠ .typeDouble)
    (hne : ¬ ∃ m n, a = .int m ∧ b = .int n) : OperatorsAgree ops '+' a b := by
  cases a with
  | double d => exact absurd rfl ha
  | int m =>
      cases b with
      | double d => exact absurd rfl hb
      | int n => exact absurd ⟨m, n, rfl, rfl⟩ hne
      | _ => exact .inl ⟨rfl, .inl rfl⟩
  | string s =>
      cases b with
      | string u => exact .inr ⟨.string (s ++ u), (fun hnil => by cases hnil), rfl, rfl⟩
      | _ => exact .inl ⟨rfl, .inl rfl⟩
  | _ =>
      cases b with
      | _ => exact .inl ⟨rfl, .inl rfl⟩

theorem operatorsAgree_arithmetic (hop : op ∈ arithmeticOps) (ha : a.type ≠ .typeDouble)
    (hb : b.type ≠ .typeDouble) (hne : ¬ ∃ m n, a = .int m ∧ b = .int n) :
    OperatorsAgree ops op a b := by
  by_cases hadd : op = '+'
  · subst hadd
    exact operatorsAgree_add ha hb hne
  · obtain ⟨hevaluate, hbread⟩ := @arithmetic_refused ops op a b ha hb hne
    have hevaluated : evaluateBinaryOp ops op a b = evaluateArithmetic ops op a b := by
      simp only [arithmeticOps, List.mem_cons, List.not_mem_nil, or_false] at hop
      obtain rfl | rfl | rfl | rfl | rfl := hop
      · exact absurd rfl hadd
      all_goals
        rw [evaluateBinaryOp, promoteOperands_eq ha hb]
        rfl
    have hbreaded : breadBinaryOp ops op a b = breadArithmeticOp ops op a b := by
      simp only [arithmeticOps, List.mem_cons, List.not_mem_nil, or_false] at hop
      obtain rfl | rfl | rfl | rfl | rfl := hop
      · exact absurd rfl hadd
      all_goals rfl
    exact .inl ⟨hevaluated.trans hevaluate, .inl (hbreaded.trans hbread)⟩

/-- The comparison operators. -/
def comparisonOps : List Char := ['=', '!', '<', '>', 'l', 'g']

theorem evaluateBinaryOp_compare (hop : op ∈ comparisonOps) (ha : a.type ≠ .typeDouble)
    (hb : b.type ≠ .typeDouble) :
    evaluateBinaryOp ops op a b = .ok (evaluateComparison ops op a b) ∧
      breadBinaryOp ops op a b = .ok ((breadCompareValues ops op a b).elim .nil .bool) := by
  simp only [comparisonOps, List.mem_cons, List.not_mem_nil, or_false] at hop
  obtain rfl | rfl | rfl | rfl | rfl | rfl := hop
  all_goals
    rw [evaluateBinaryOp, promoteOperands_eq ha hb]
    exact ⟨rfl, rfl⟩

/-- The comparisons are the same, but for objects. -/
theorem evaluateComparison_eq (ha : a.type ≠ .typeDouble)
    (hobject : a.type = b.type → a.type.isObject = false) :
    evaluateComparison ops op a b = (breadCompareValues ops op a b).map .bool := by
  cases a with
  | double d => exact absurd rfl ha
  | nil => rfl
  | int m => cases b <;> rfl
  | bool p => cases b <;> rfl
  | string s => cases b <;> rfl
  | array r => cases b <;> first | rfl | cases hobject rfl
  | dict r => cases b <;> first | rfl | cases hobject rfl
  | optional r => cases b <;> first | rfl | cases hobject rfl
  | struct r => cases b <;> first | rfl | cases hobject rfl
  | «class» r => cases b <;> first | rfl | cases hobject rfl

/-- The interpreter compares no objects, and the runtime tests them for equality only. -/
theorem compare_objects (htype : a.type = b.type) (hobject : a.type.isObject = true) :
    evaluateComparison ops op a b = none ∧
      ((breadCompareValues ops op a b).isSome = true ↔ op = '=' ∨ op = '!') := by
  have hrefs (x y : Ref) : (compareRefs op x y).isSome = true ↔ op = '=' ∨ op = '!' := by
    unfold compareRefs
    split
    · exact iff_of_true rfl (.inl rfl)
    · exact iff_of_true rfl (.inr rfl)
    · rename_i heq hne
      exact iff_of_false (fun h => by cases h) fun h => h.elim heq hne
  cases a <;> cases hobject
  all_goals
    cases b <;> cases htype
    exact ⟨rfl, hrefs _ _⟩

theorem operatorsAgree_compare_iff (hop : op ∈ comparisonOps) (ha : a.type ≠ .typeDouble)
    (hb : b.type ≠ .typeDouble) :
    OperatorsAgree ops op a b ↔
      (a.type = b.type → a.type.isObject = true → op ≠ '=' ∧ op ≠ '!') := by
  obtain ⟨hevaluate, hbread⟩ := @evaluateBinaryOp_compare ops op a b hop ha hb
  rw [OperatorsAgree, hevaluate, hbread]
  by_cases hobject : a.type = b.type ∧ a.type.isObject = true
  · obtain ⟨hnone, hsome⟩ := @compare_objects ops op a b hobject.1 hobject.2
    rw [hnone]
    cases hcompare : breadCompareValues ops op a b with
    | none =>
        rw [hcompare] at hsome
        have hop : ¬(op = '=' ∨ op = '!') := fun h => by cases hsome.mpr h
        exact iff_of_true (.inl ⟨rfl, .inl rfl⟩) fun _ _ => not_or.mp hop
    | some x =>
        rw [hcompare] at hsome
        refine iff_of_false ?_ fun h => not_or.mpr (h hobject.1 hobject.2) (hsome.mp rfl)
        rintro (⟨-, hnil | ⟨e, he⟩⟩ | ⟨v, -, hleft, -⟩)
        · cases hnil
        · cases he
        · cases hleft
  · have heq : evaluateComparison ops op a b = _ := evaluateComparison_eq ha fun htype =>
      Bool.eq_false_iff.mpr fun h => hobject ⟨htype, h⟩
    rw [heq]
    refine iff_of_true ?_ fun htype h => absurd ⟨htype, h⟩ hobject
    cases breadCompareValues ops op a b with
    | none => exact .inl ⟨rfl, .inl rfl⟩
    | some x => exact .inr ⟨.bool x, (fun hnil => by cases hnil), rfl, rfl⟩

/-- The logical operators take two booleans. -/
theorem operatorsAgree_logical (hop : op = '&' ∨ op = '|') (ha : a.type ≠ .typeDouble)
    (hb : b.type ≠ .typeDouble) : OperatorsAgree ops op a b := by
  have hevaluate : evaluateBinaryOp ops op a b = .ok (evaluateLogical op a b) := by
    obtain rfl | rfl := hop
    all_goals
      rw [evaluateBinaryOp, promoteOperands_eq ha hb]
      rfl
  rw [OperatorsAgree, hevaluate]
  obtain rfl | rfl := hop
  all_goals
    cases a with
    | bool p =>
        cases b with
        | bool q => exact .inr ⟨.bool _, (fun hnil => by cases hnil), rfl, rfl⟩
        | _ => exact .inl ⟨rfl, .inl rfl⟩
    | _ => exact .inl ⟨rfl, .inl rfl⟩

/-- An operator that neither knows. -/
theorem operatorsAgree_unknown (harithmetic : op ∉ arithmeticOps) (hcompare : op ∉ comparisonOps)
    (hlogical : ¬(op = '&' ∨ op = '|')) : OperatorsAgree ops op a b := by
  simp only [arithmeticOps, comparisonOps, List.mem_cons, List.not_mem_nil, or_false, not_or]
    at harithmetic hcompare hlogical
  refine .inl ⟨?_, .inr ⟨⟨.runtimeError, unknownOperatorMessage op⟩, ?_⟩⟩
  · simp [evaluateBinaryOp, harithmetic, hcompare, hlogical]
  · simp [breadBinaryOp, harithmetic, hcompare, hlogical]

end Operands

/-- **The operators agree** on operands that are no doubles, unless the result of arithmetic on
integers overflows an `int`, or objects are tested for equality. -/
theorem operators_agree_iff (ops : DoubleOps) (op : Char) {a b : BreadValue}
    (ha : a.type ≠ .typeDouble) (hb : b.type ≠ .typeDouble) :
    OperatorsAgree ops op a b ↔ WithinInterpreter op a b := by
  by_cases harithmetic : op ∈ arithmeticOps
  · have hequality : op ≠ '=' ∧ op ≠ '!' :=
      ⟨fun h => absurd (h ▸ harithmetic) (by decide), fun h => absurd (h ▸ harithmetic) (by decide)⟩
    by_cases hints : ∃ m n, a = .int m ∧ b = .int n
    · -- A zero divisor is tested by both before the division.
      obtain ⟨m, n, rfl, rfl⟩ := hints
      by_cases hdivisor : isDivision op = true ∧ n.val = 0
      · refine iff_of_true (operatorsAgree_zero hdivisor.1 hdivisor.2) ⟨?_, fun _ _ => hequality⟩
        rintro m' n' ⟨⟩ ⟨⟩ - hnonzero
        exact absurd hdivisor.2 (hnonzero hdivisor.1)
      · have hnonzero : isDivision op = true → n.val ≠ 0 := fun h h' => hdivisor ⟨h, h'⟩
        rw [operatorsAgree_int_iff harithmetic hnonzero]
        refine ⟨fun h => ⟨?_, fun _ _ => hequality⟩, fun h => ?_⟩
        swap
        · exact h.integers m n rfl rfl harithmetic hnonzero
        rintro m' n' ⟨⟩ ⟨⟩ - -
        exact h
    · refine iff_of_true (operatorsAgree_arithmetic harithmetic ha hb hints)
        ⟨fun m n hm hn => absurd ⟨m, n, hm, hn⟩ hints, fun _ _ => hequality⟩
  · have hintegers : ∀ m n : BreadInt, a = .int m → b = .int n → op ∈ arithmeticOps →
        (isDivision op → n.val ≠ 0) → OperandsFit op m n ∧ IsInt32 (exactResult op m.val n.val) :=
      fun m n _ _ hop => absurd hop harithmetic
    by_cases hcompare : op ∈ comparisonOps
    · rw [operatorsAgree_compare_iff hcompare ha hb]
      exact ⟨fun h => ⟨hintegers, h⟩, WithinInterpreter.objects⟩
    · have hequality : op ≠ '=' ∧ op ≠ '!' :=
        ⟨fun h => hcompare (h ▸ by decide), fun h => hcompare (h ▸ by decide)⟩
      refine iff_of_true ?_ ⟨hintegers, fun _ _ => hequality⟩
      by_cases hlogical : op = '&' ∨ op = '|'
      · exact operatorsAgree_logical hlogical ha hb
      · exact operatorsAgree_unknown harithmetic hcompare hlogical

theorem operators_agree_division :
    OperatorsAgree noDoubles '/' (.int (BreadInt.wrap (-7))) (.int 2) ↔
      WithinInterpreter '/' (.int (BreadInt.wrap (-7))) (.int 2) :=
  operators_agree_iff noDoubles '/' (by decide) (by decide)

/-- `65536 * 65536` is 0 in the interpreter, and an array is not comparable to itself. -/
theorem operators_disagree :
    evaluateBinaryOp noDoubles '*' (.int (BreadInt.wrap 65536)) (.int (BreadInt.wrap 65536)) =
        .ok (some (.int (BreadInt.wrap 0))) ∧
      ¬ OperatorsAgree noDoubles '*' (.int (BreadInt.wrap 65536)) (.int (BreadInt.wrap 65536)) ∧
      ¬ OperatorsAgree noDoubles '=' (.array 0) (.array 0) := by
  refine ⟨by decide, fun h => ?_, fun h => ?_⟩
  · have hfits := (operatorsAgree_int_iff (by decide) (by decide)).mp h
    exact absurd hfits.2 (by decide)
  · exact ((operatorsAgree_compare_iff (by decide) (by decide) (by decide)).mp h rfl rfl).1 rfl

end BreadLang
