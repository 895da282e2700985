import BreadLang.Codegen.Ir
import BreadLang.Runtime.ValueOps

/-!
# What the emitted code of an expression computes

The code of an expression that calls no compiled function is evaluated in an
environment that says what its variables hold.  A value at run time is a
`BreadValue` or the value of an LLVM register.
-/

namespace BreadLang

/-- A value at run time, boxed or in a register. -/
inductive RuntimeValue where
  | boxed (v : BreadValue)
  | int (n : BreadInt)
  | bool (b : Bool)
  | double (d : DoubleBits)

/-- What the variables hold: the slots of each type, the variables of the
runtime, and the members of `self`. -/
structure Env where
  ops : DoubleOps
  intSlot : StackSlot → BreadInt
  boolSlot : StackSlot → Bool
  doubleSlot : StackSlot → DoubleBits
  boxedSlot : StackSlot → BreadValue
  var : Ident → BreadValue
  self : BreadValue
  member : BreadValue → Ident → BreadValue

/-- Why an evaluation has no value. -/
inductive EvalError where
  | stop (s : Stop)
  /-- An operand has a type the instruction does not take, or the code is not that
  of an expression without calls. -/
  | unsupported
  deriving DecidableEq

/-- The outcome of an evaluation. -/
abbrev Eval := Except EvalError

/-- An outcome of the C code. -/
def liftExec {α : Type} : Exec α → Eval α
  | .ok a => .ok a
  | .error s => .error (.stop s)

/-- The instructions on two `i64`.  A division by zero, or one whose quotient does
not fit, has undefined behaviour. -/
def evalIntOp (op : LLVMOp) (a b : BreadInt) : Eval RuntimeValue :=
  match op with
  | .add => .ok (.int (.wrap (a.val + b.val)))
  | .sub => .ok (.int (.wrap (a.val - b.val)))
  | .mul => .ok (.int (.wrap (a.val * b.val)))
  | .sdiv =>
      if b.val == 0 then .error (.stop (.undefined .divisionTrap))
      else do return .int (← liftExec (divInt64 Int.tdiv a b))
  | .srem =>
      if b.val == 0 then .error (.stop (.undefined .divisionTrap))
      else do return .int (← liftExec (divInt64 Int.tmod a b))
  | .icmpEq => .ok (.bool (a.val == b.val))
  | .icmpSlt => .ok (.bool (decide (a.val < b.val)))
  | .icmpSgt => .ok (.bool (decide (b.val < a.val)))
  | _ => .error .unsupported

/-- The instructions on two `double`s. -/
def evalDoubleOp (ops : DoubleOps) (op : LLVMOp) (a b : DoubleBits) : Eval RuntimeValue :=
  match op with
  | .fadd => .ok (.double (ops.add a b))
  | .fsub => .ok (.double (ops.sub a b))
  | .fmul => .ok (.double (ops.mul a b))
  | .fdiv => .ok (.double (ops.div a b))
  | .fcmpOeq => .ok (.bool (doubleEq a b))
  | .fcmpOlt => .ok (.bool (ops.lt a b))
  | .fcmpOgt => .ok (.bool (ops.lt b a))
  | _ => .error .unsupported

/-- The instructions on registers. -/
def evalLLVM (ops : DoubleOps) (op : LLVMOp) : List RuntimeValue → Eval RuntimeValue
  | [.int a, .int b] => evalIntOp op a b
  | [.double a, .double b] => evalDoubleOp ops op a b
  | [.double d] => if op = .fneg then .ok (.double d.neg) else .error .unsupported
  | [.bool b] => if op = .not then .ok (.bool !b) else .error .unsupported
  | _ => .error .unsupported

/-- The operations on values. -/
def evalOp (env : Env) : Op → List RuntimeValue → Eval RuntimeValue
  | .constInt n, [] => .ok (.int n)
  | .constReal d, [] => .ok (.double d)
  | .constBool b, [] => .ok (.bool b)
  | .llvm op, args => evalLLVM env.ops op args
  | .setNil, [] => .ok (.boxed .nil)
  | .setInt n, [] => .ok (.boxed (.int n))
  | .setBool b, [] => .ok (.boxed (.bool b))
  | .setDouble d, [] => .ok (.boxed (.double d))
  | .setString s, [] => .ok (.boxed (.string s))
  | .box .int, [.int n] => .ok (.boxed (.int n))
  | .box .bool, [.bool b] => .ok (.boxed (.bool b))
  | .box .double, [.double d] => .ok (.boxed (.double d))
  | .binaryOp op, [.boxed l, .boxed r] => do
      return .boxed (← liftExec (breadBinaryOp env.ops op l r))
  | .unaryNot, [.boxed v] => .ok (.boxed (breadUnaryNot v))
  | .memberOp member false, [.boxed v] => .ok (.boxed (env.member v member))
  | _, _ => .error .unsupported

mutual

/-- The value of the code of an expression. -/
def Code.eval (env : Env) : Code → Eval RuntimeValue
  | .op o args => do evalOp env o (← Code.evalArgs env args)
  | .load .int s => .ok (.int (env.intSlot s))
  | .load .bool s => .ok (.bool (env.boolSlot s))
  | .load .double s => .ok (.double (env.doubleSlot s))
  | .cloneSlot s | .slot s => .ok (.boxed (env.boxedSlot s))
  | .selfParam | .cloneSelf => .ok (.boxed env.self)
  | .varLoad name => .ok (.boxed (env.var name))
  | .seq first second => do
      let _ ← Code.eval env first
      Code.eval env second
  | .callFunction _ _ | .callMethod _ _ _ | .methodCallOp _ _ _ _ | .superInit _ _
  | .newInstance _ _ _ _ _ => .error .unsupported

/-- The values of the operands, in order. -/
def Code.evalArgs (env : Env) : List Code → Eval (List RuntimeValue)
  | [] => .ok []
  | c :: cs => do
      let v ← Code.eval env c
      return v :: (← Code.evalArgs env cs)

end

/-- The value of code whose value is boxed. -/
def Code.evalBoxed (env : Env) (c : Code) : Eval BreadValue := do
  match ← c.eval env with
  | .boxed v => .ok v
  | _ => .error .unsupported

/-! ### Evaluating one node -/

section Nodes

variable {env : Env}

theorem eval_unary (o : Op) (c : Code) :
    (Code.op o [c]).eval env = c.eval env >>= fun v => evalOp env o [v] := by
  rw [Code.eval, Code.evalArgs, Code.evalArgs]
  cases c.eval env <;> rfl

theorem eval_binary (o : Op) (c d : Code) :
    (Code.op o [c, d]).eval env =
      c.eval env >>= fun v => d.eval env >>= fun w => evalOp env o [v, w] := by
  rw [Code.eval, Code.evalArgs, Code.evalArgs, Code.evalArgs]
  cases c.eval env with
  | error e => rfl
  | ok v => cases d.eval env <;> rfl

/-- Code that only computes boxed values. -/
def Code.IsBoxed (env : Env) (c : Code) : Prop :=
  ∀ v, c.eval env = .ok v → ∃ w, v = .boxed w

theorem Code.IsBoxed.eval_eq {c : Code} (h : c.IsBoxed env) :
    c.eval env = RuntimeValue.boxed <$> c.evalBoxed env := by
  have heval : c.evalBoxed env = c.eval env >>= fun v =>
    match v with
    | .boxed v => .ok v
    | _ => .error .unsupported := rfl
  rw [heval]
  cases hc : c.eval env with
  | error e => rfl
  | ok v =>
      obtain ⟨w, rfl⟩ := h v hc
      rfl

theorem evalBoxed_of_eval {c : Code} {r : Eval BreadValue}
    (h : c.eval env = RuntimeValue.boxed <$> r) : c.evalBoxed env = r := by
  show (c.eval env >>= fun v => match v with
    | .boxed v => .ok v
    | _ => .error .unsupported) = r
  rw [h]
  cases r <;> rfl

theorem isBoxed_of_eval {c : Code} {r : Eval BreadValue}
    (h : c.eval env = RuntimeValue.boxed <$> r) : c.IsBoxed env := by
  intro v hv
  rw [h] at hv
  cases r with
  | error e => cases hv
  | ok w =>
      cases hv
      exact ⟨w, rfl⟩

theorem eval_binaryOp {op : Char} {l r : Code} (hl : l.IsBoxed env) (hr : r.IsBoxed env) :
    (Code.op (.binaryOp op) [l, r]).eval env =
      RuntimeValue.boxed <$> (l.evalBoxed env >>= fun a => r.evalBoxed env >>= fun b =>
        liftExec (breadBinaryOp env.ops op a b)) := by
  rw [eval_binary, hl.eval_eq, hr.eval_eq]
  cases l.evalBoxed env with
  | error e => rfl
  | ok a =>
      cases r.evalBoxed env with
      | error e => rfl
      | ok b =>
          show (liftExec (breadBinaryOp env.ops op a b) >>= fun v => .ok (.boxed v)) =
            RuntimeValue.boxed <$> liftExec (breadBinaryOp env.ops op a b)
          cases breadBinaryOp env.ops op a b <;> rfl

theorem eval_unaryNot {c : Code} (hc : c.IsBoxed env) :
    (Code.op .unaryNot [c]).eval env =
      RuntimeValue.boxed <$> (c.evalBoxed env >>= fun v => .ok (breadUnaryNot v)) := by
  rw [eval_unary, hc.eval_eq]
  cases c.evalBoxed env <;> rfl

end Nodes

end BreadLang
