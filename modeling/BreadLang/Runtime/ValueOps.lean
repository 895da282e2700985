import BreadLang.Core.Value

/-!
# Operations on values

The operators of the runtime: `bread_binary_op` and the functions it dispatches
to, and `bread_unary_not`.  The caller has set the result to nil before the
call, so an operation that only records an error leaves nil there; the errors
that abort the process are outcomes of their own.

The arithmetic of `double` is a parameter.  The C code and the LLVM instructions
use the same one.
-/

namespace BreadLang

/-- The operations of the machine on doubles. -/
structure DoubleOps where
  ofInt : BreadInt → DoubleBits
  add : DoubleBits → DoubleBits → DoubleBits
  sub : DoubleBits → DoubleBits → DoubleBits
  mul : DoubleBits → DoubleBits → DoubleBits
  div : DoubleBits → DoubleBits → DoubleBits
  lt : DoubleBits → DoubleBits → Bool

/-- Operations on doubles, for runs in which none is computed. -/
def noDoubles : DoubleOps :=
  ⟨fun _ => ⟨0⟩, fun _ _ => ⟨0⟩, fun _ _ => ⟨0⟩, fun _ _ => ⟨0⟩, fun _ _ => ⟨0⟩, fun _ _ => false⟩

/-- A double with its sign changed. -/
def DoubleBits.neg (d : DoubleBits) : DoubleBits :=
  ⟨d.bits ^^^ 0x8000000000000000⟩

/-- The result of an operation on `int64_t`, which must be representable. -/
def checkedInt64 (x : ℤ) : Exec BreadInt :=
  if h : -2 ^ 63 ≤ x ∧ x < 2 ^ 63 then .ok ⟨x, h⟩ else .error (.undefined .signedOverflow)

/-- `/` and `%` on `int64_t` with a divisor other than zero. -/
def divInt64 (f : ℤ → ℤ → ℤ) (a b : BreadInt) : Exec BreadInt :=
  if -2 ^ 63 ≤ a.val.tdiv b.val ∧ a.val.tdiv b.val < 2 ^ 63 then
    .ok (.wrap (f a.val b.val))
  else
    .error (.undefined .divisionTrap)

/-! ### Addition and arithmetic -/

/-- `bread_value_as_double`, on a number. -/
def BreadValue.asDouble (ops : DoubleOps) : BreadValue → Option DoubleBits
  | .int n => some (ops.ofInt n)
  | .double d => some d
  | _ => none

/-- `bread_add`. -/
def breadAdd (ops : DoubleOps) (left right : BreadValue) : Exec BreadValue :=
  match left, right with
  | .string a, .string b => .ok (.string (a ++ b))
  | .int a, .int b => do return .int (← checkedInt64 (a.val + b.val))
  | _, _ =>
      match left.asDouble ops, right.asDouble ops with
      | some l, some r => .ok (.double (ops.add l r))
      | _, _ => .ok .nil

/-- The integer case of `bread_arithmetic_op`. -/
def breadIntArithmetic (op : Char) (a b : BreadInt) : Exec BreadValue :=
  if (op == '/' || op == '%') && b.val == 0 then
    .error (.abort ⟨.divisionByZero,
      if op == '/' then "Integer division by zero" else "Integer modulo by zero"⟩)
  else if op == '-' then do return .int (← checkedInt64 (a.val - b.val))
  else if op == '*' then do return .int (← checkedInt64 (a.val * b.val))
  else if op == '/' then do return .int (← divInt64 Int.tdiv a b)
  else if op == '%' then do return .int (← divInt64 Int.tmod a b)
  else .ok .nil

/-- The floating point case of `bread_arithmetic_op`. -/
def breadDoubleArithmetic (ops : DoubleOps) (op : Char) (l r : DoubleBits) : Exec BreadValue :=
  if op == '/' && r.isZero then
    .error (.abort ⟨.divisionByZero, "Floating point division by zero"⟩)
  else if op == '-' then .ok (.double (ops.sub l r))
  else if op == '*' then .ok (.double (ops.mul l r))
  else if op == '/' then .ok (.double (ops.div l r))
  else .ok .nil

/-- `bread_arithmetic_op`. -/
def breadArithmeticOp (ops : DoubleOps) (op : Char) (left right : BreadValue) : Exec BreadValue :=
  match left, right with
  | .int a, .int b => breadIntArithmetic op a b
  | _, _ =>
      match left.asDouble ops, right.asDouble ops with
      | some l, some r => breadDoubleArithmetic ops op l r
      | _, _ => .ok .nil

/-! ### Comparison -/

/-- `strcmp`. -/
def strcmp : List Char → List Char → Ordering
  | [], [] => .eq
  | [], _ :: _ => .lt
  | _ :: _, [] => .gt
  | a :: as, b :: bs =>
      match compare a.toNat b.toNat with
      | .eq => strcmp as bs
      | o => o

/-- The result of a comparison operator on operands in the given order. -/
def compareOrdering (op : Char) (o : Ordering) : Option Bool :=
  match op with
  | '=' => some (o == .eq)
  | '!' => some (o != .eq)
  | '<' => some (o == .lt)
  | '>' => some (o == .gt)
  | 'l' => some (o != .gt)
  | 'g' => some (o != .lt)
  | _ => none

/-- The double case of `bread_compare_values`. -/
def compareDoubles (ops : DoubleOps) (op : Char) (a b : DoubleBits) : Option Bool :=
  match op with
  | '=' => some (doubleEq a b)
  | '!' => some !(doubleEq a b)
  | '<' => some (ops.lt a b)
  | '>' => some (ops.lt b a)
  | 'l' => some (ops.lt a b || doubleEq a b)
  | 'g' => some (ops.lt b a || doubleEq a b)
  | _ => none

/-- The comparison of references: the pointers are equal or not. -/
def compareRefs (op : Char) (a b : Ref) : Option Bool :=
  match op with
  | '=' => some (a == b)
  | '!' => some (a != b)
  | _ => none

/-- `bread_compare_values`; `none` is a return of zero. -/
def breadCompareValues (ops : DoubleOps) (op : Char) (left right : BreadValue) : Option Bool :=
  match left, right with
  | .int a, .int b => compareOrdering op (compare a.val b.val)
  | .bool a, .bool b => compareOrdering op (compare a b)
  | .double a, .double b => compareDoubles ops op a b
  | .string a, .string b => compareOrdering op (strcmp (cString a) (cString b))
  | .array a, .array b => compareRefs op a b
  | .dict a, .dict b => compareRefs op a b
  | .optional a, .optional b => compareRefs op a b
  | .struct a, .struct b => compareRefs op a b
  | .class a, .class b => compareRefs op a b
  | _, _ => none

/-! ### Operators -/

/-- The message of an operator that `bread_binary_op` does not know. -/
def unknownOperatorMessage (op : Char) : String :=
  "Unknown binary operator '" ++ op.toString ++ "'"

/-- `bread_binary_op`, as the value of its result. -/
def breadBinaryOp (ops : DoubleOps) (op : Char) (left right : BreadValue) : Exec BreadValue :=
  if op == '+' then
    breadAdd ops left right
  else if op == '-' || op == '*' || op == '/' || op == '%' then
    breadArithmeticOp ops op left right
  else if op == '=' || op == '!' || op == '<' || op == '>' || op == 'l' || op == 'g' then
    .ok ((breadCompareValues ops op left right).elim .nil .bool)
  else if op == '&' || op == '|' then
    match left, right with
    | .bool a, .bool b => .ok (.bool (if op == '&' then a && b else a || b))
    | _, _ => .ok .nil
  else
    .error (.abort ⟨.runtimeError, unknownOperatorMessage op⟩)

/-- `bread_unary_not`, as the value of its result. -/
def breadUnaryNot : BreadValue → BreadValue
  | .bool b => .bool !b
  | _ => .nil

end BreadLang
