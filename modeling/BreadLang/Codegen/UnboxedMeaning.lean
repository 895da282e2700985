import BreadLang.Codegen.UnboxedOperators

/-!
# Unboxed and boxed code compute the same

The code that is built for an expression is compared with its boxed lowering, in
any environment.  Operator by operator the comparison is that of
`binaryResult_standsFor_iff` and `unaryResult_standsFor_iff`; `paths_agree_iff`
puts the operators of an expression together.
-/

namespace BreadLang

/-! ### Expressions -/

section Expressions

variable (env : Env) (cg : Cg) (fn : Option CgCallee)

/-- The type of the register that a unary operator leaves. -/
def unaryRegisterType (op : Char) (t : Option UnboxedType) : Option UnboxedType :=
  match op, t with
  | '-', some .int => some .int
  | '-', some .double => some .double
  | '!', some .bool => some .bool
  | _, _ => none

/-- The type of the register in which an expression is computed, if it is not
computed boxed: by the types of its variables and the tables of instructions. -/
def registerType : ASTExpr → Option UnboxedType
  | .int _ => some .int
  | .bool _ => some .bool
  | .double _ => some .double
  | .var name => (unboxedSlot cg fn name).map Prod.fst
  | .binary op left right => do
      return (← binaryInstruction op (← registerType left) (← registerType right)).1
  | .unary op operand => unaryRegisterType op (registerType operand)
  | _ => none

/-- The value of an expression by the functions of the runtime. -/
def runtimeValue : ASTExpr → Eval BreadValue
  | .int n => .ok (.int n)
  | .bool b => .ok (.bool b)
  | .double d => .ok (.double d)
  | .var name => (buildVar cg fn name).evalBoxed env
  | .binary op left right => do
      let l ← runtimeValue left
      let r ← runtimeValue right
      liftExec (breadBinaryOp env.ops op l r)
  | .unary op operand => do
      boxedUnaryResult env.ops op (← runtimeValue operand)
  | _ => .ok .nil

/-- `cg_build_expr` and the boxed lowering build code for an expression, and the code
of the first may stand for that of the second. -/
def PathsAgree (e : ASTExpr) : Prop :=
  ∀ n, e.operatorDepth + 3 ≤ n → ∃ code boxed,
    ((builder n).expr fn e).result cg = .ok code ∧
    ((boxedBuilder n).expr fn e).result cg = .ok boxed ∧
    StandsFor EvalError.IsUndefined (code.evalBoxed env) (boxed.evalBoxed env)

/-- **What the operator at the root of an expression must not do**: divide by zero
in registers, or negate a number that is boxed. -/
def OperatorSafe : ASTExpr → Prop
  | .binary op left right => ∀ l r, runtimeValue env cg fn left = .ok l →
      runtimeValue env cg fn right = .ok r →
        DivisionSafe op (registerType cg fn left) (registerType cg fn right) r
  | .unary op operand => op = '-' → ∀ v, runtimeValue env cg fn operand = .ok v →
      NegationSafe env.ops (registerType cg fn operand) v
  | _ => True

/-- A property of an expression and of all its operands. -/
def ASTExpr.AllOperands (P : ASTExpr → Prop) : ASTExpr → Prop
  | .binary op left right =>
      P (.binary op left right) ∧ left.AllOperands P ∧ right.AllOperands P
  | .unary op operand => P (.unary op operand) ∧ operand.AllOperands P
  | e => P e

end Expressions

section Lowering

variable {env : Env} {cg : Cg} {fn : Option CgCallee}

theorem ASTExpr.AllOperands.self {P : ASTExpr → Prop} {e : ASTExpr} (h : e.AllOperands P) :
    P e := by
  cases e with
  | binary op left right => exact h.1
  | unary op operand => exact h.1
  | _ => exact h

theorem lowerBinary_type (op : Char) (l r : Lowered) :
    (lowerBinary op l r).type? =
      do return (← binaryInstruction op (← l.type?) (← r.type?)).1 := by
  cases l with
  | boxed lc => rfl
  | unboxed s lv =>
      cases r with
      | boxed rc => rfl
      | unboxed t rv =>
          show (lowerBinary op (.unboxed s lv) (.unboxed t rv)).type? =
              (binaryInstruction op s t).bind fun i => some i.1
          unfold lowerBinary
          dsimp only
          cases binaryInstruction op s t <;> rfl

theorem lowerUnary_type (op : Char) (l : Lowered) :
    (lowerUnary op l).type? = unaryRegisterType op l.type? := by
  have hfallback : (if op == '!' then Lowered.boxed (.op .unaryNot [l.code])
      else .boxed (.seq l.code (.op .setNil []))).type? = none := by
    split <;> rfl
  unfold lowerUnary
  split
  · rfl
  · rfl
  · rfl
  · rename_i hint hdouble hbool
    rw [hfallback]
    unfold unaryRegisterType
    cases l with
    | boxed c => split <;> first | rfl | (rename_i h; cases h)
    | unboxed t c =>
        split
        · rename_i h
          cases h
          exact absurd rfl (hint c rfl)
        · rename_i h
          cases h
          exact absurd rfl (hdouble c rfl)
        · rename_i h
          cases h
          exact absurd rfl (hbool c rfl)
        · rfl

theorem lowered_type : ∀ e : ASTExpr, (lowered cg fn e).type? = registerType cg fn e
  | .int _ | .bool _ | .double _ => rfl
  | .var name => by
      unfold lowered registerType
      cases unboxedSlot cg fn name <;> rfl
  | .binary op left right => by
      unfold lowered registerType
      rw [lowerBinary_type, lowered_type left, lowered_type right]
  | .unary op operand => by
      unfold lowered registerType
      rw [lowerUnary_type, lowered_type operand]
  | .null | .nil | .string _ | .stringLiteral _ | .self | .super | .array _ => rfl
  | .index _ _ | .member _ _ _ | .methodCall _ _ _ _ | .call _ _ | .arrayLiteral _ => rfl
  | .dict _ | .structLiteral _ _ | .classLiteral _ _ => rfl

theorem isBoxed_buildVar (name : Ident) : (buildVar cg fn name).IsBoxed env := by
  have hbox : ∀ (t : UnboxedType) (s : StackSlot), (Code.op (.box t) [.load t s]).IsBoxed env := by
    intro t s v hv
    cases t <;> cases hv <;> exact ⟨_, rfl⟩
  unfold buildVar
  split
  · split
    · exact hbox _ _
    · intro v hv
      cases hv
      exact ⟨_, rfl⟩
  · split
    · intro v hv
      cases hv
      exact ⟨_, rfl⟩
    · intro v hv
      cases hv
      exact ⟨_, rfl⟩

theorem wellTyped_lowered (env : Env) (cg : Cg) (fn : Option CgCallee) :
    ∀ e : ASTExpr, (lowered cg fn e).WellTyped env
  | .int _ | .bool _ | .double _ => by
      intro v hv
      cases hv
      rfl
  | .var name => by
      unfold lowered
      cases unboxedSlot cg fn name with
      | none => exact wellTyped_boxed (isBoxed_buildVar name)
      | some s =>
          obtain ⟨t, slot⟩ := s
          intro v hv
          cases t <;> cases hv <;> rfl
  | .binary op left right =>
      (eval_lowerBinary op (wellTyped_lowered env cg fn left)
        (wellTyped_lowered env cg fn right)).1
  | .unary op operand => (eval_lowerUnary op (wellTyped_lowered env cg fn operand)).1
  | .null | .nil | .string _ | .stringLiteral _ | .self | .super | .array _
  | .index _ _ | .member _ _ _ | .methodCall _ _ _ _ | .call _ _ | .arrayLiteral _
  | .dict _ | .structLiteral _ _ | .classLiteral _ _ => by
      intro v hv
      cases hv
      rfl

/-- The boxed lowering computes the value by the functions of the runtime. -/
theorem eval_boxedLowering : ∀ {e : ASTExpr}, canUnboxExpr e = true → e.hasKnownUnary →
    (boxedLowering cg fn e).eval env = RuntimeValue.boxed <$> runtimeValue env cg fn e
  | .int _, _, _ | .bool _, _, _ | .double _, _, _ => rfl
  | .var name, _, _ => (isBoxed_buildVar name).eval_eq
  | .binary op left right, he, hops => by
      have hcan : canUnboxExpr left = true ∧ canUnboxExpr right = true := by
        simpa [canUnboxExpr] using he
      have hl := eval_boxedLowering hcan.1 hops.1
      have hr := eval_boxedLowering hcan.2 hops.2
      have heval := @eval_binaryOp env op _ _ (isBoxed_of_eval hl) (isBoxed_of_eval hr)
      rw [evalBoxed_of_eval hl, evalBoxed_of_eval hr] at heval
      exact heval
  | .unary op operand, he, hops => by
      have hcan : canUnboxExpr operand = true := he
      have hv := eval_boxedLowering hcan hops.2
      have hboxed := isBoxed_of_eval hv
      rcases hops.1 with rfl | rfl
      · have hzero : (Code.op (.setInt 0) []).IsBoxed env := by
          intro v hv
          cases hv
          exact ⟨_, rfl⟩
        have heval := @eval_binaryOp env '-' _ _ hzero hboxed
        rw [evalBoxed_of_eval hv] at heval
        exact heval
      · have heval := eval_unaryNot hboxed
        rw [evalBoxed_of_eval hv] at heval
        exact heval

/-- The two lowerings of an expression agree when the value of its code may stand
for the value by the runtime. -/
theorem pathsAgree_iff_standsFor {e : ASTExpr} (he : canUnboxExpr e = true)
    (hops : e.hasKnownUnary) :
    PathsAgree env cg fn e ↔ StandsFor EvalError.IsUndefined
      ((lowered cg fn e).code.evalBoxed env) (runtimeValue env cg fn e) := by
  have hboxed : (boxedLowering cg fn e).evalBoxed env = runtimeValue env cg fn e :=
    evalBoxed_of_eval (eval_boxedLowering he hops)
  rw [← hboxed]
  constructor
  · intro h
    obtain ⟨code, boxed, hcode, hboxed, hstands⟩ := h (e.operatorDepth + 3) le_rfl
    rw [(yields_expr he le_rfl).1] at hcode
    rw [(yields_boxedLowering he hops (by omega)).1] at hboxed
    cases hcode
    cases hboxed
    exact hstands
  · intro h n hn
    exact ⟨_, _, (yields_expr he hn).1, (yields_boxedLowering he hops (by omega)).1, h⟩

theorem hasType_of_eval {e : ASTExpr} {v : BreadValue}
    (h : (lowered cg fn e).code.evalBoxed env = .ok v) : v.HasType (registerType cg fn e) := by
  have htyped : (lowered cg fn e).WellTyped env := wellTyped_lowered env cg fn e
  intro u hu
  rw [htyped.evalBoxed_code] at h
  cases hraw : (lowered cg fn e).raw.eval env with
  | error e =>
      rw [hraw] at h
      cases h
  | ok w =>
      rw [hraw] at h
      cases h
      have hw := (htyped w hraw).trans ((lowered_type e).trans hu)
      rw [inRegister_toBoxed hw]
      exact hw

/-- A binary operator, when the lowerings of its operands agree. -/
theorem binary_agrees_iff {op : Char} {left right : ASTExpr}
    (he : canUnboxExpr (.binary op left right) = true)
    (hops : (ASTExpr.binary op left right).hasKnownUnary)
    (hleft : PathsAgree env cg fn left) (hright : PathsAgree env cg fn right) :
    PathsAgree env cg fn (.binary op left right) ↔
      OperatorSafe env cg fn (.binary op left right) := by
  have hcan : canUnboxExpr left = true ∧ canUnboxExpr right = true := by
    simpa [canUnboxExpr] using he
  rw [pathsAgree_iff_standsFor hcan.1 hops.1] at hleft
  rw [pathsAgree_iff_standsFor hcan.2 hops.2] at hright
  rw [pathsAgree_iff_standsFor he hops]
  have hvalue := (eval_lowerBinary op (wellTyped_lowered env cg fn left)
    (wellTyped_lowered env cg fn right)).2
  show StandsFor _ ((lowerBinary op (lowered cg fn left) (lowered cg fn right)).code.evalBoxed env)
    (runtimeValue env cg fn left >>= fun l => runtimeValue env cg fn right >>= fun r =>
      liftExec (breadBinaryOp env.ops op l r)) ↔ _
  rw [hvalue, lowered_type, lowered_type, standsFor_bind_iff hleft]
  refine forall_congr' fun l => ?_
  rw [forall_comm]
  refine forall_congr' fun hl => ?_
  rw [standsFor_bind_iff hright]
  refine forall₂_congr fun r hr => ?_
  rw [hl, standsFor_ok_iff] at hleft
  rw [hr, standsFor_ok_iff] at hright
  exact binaryResult_standsFor_iff (hasType_of_eval hleft) (hasType_of_eval hright)

/-- A unary operator, when the lowerings of its operand agree. -/
theorem unary_agrees_iff {op : Char} {operand : ASTExpr}
    (he : canUnboxExpr (.unary op operand) = true)
    (hops : (ASTExpr.unary op operand).hasKnownUnary) (hv : PathsAgree env cg fn operand) :
    PathsAgree env cg fn (.unary op operand) ↔ OperatorSafe env cg fn (.unary op operand) := by
  have hcan : canUnboxExpr operand = true := he
  rw [pathsAgree_iff_standsFor hcan hops.2] at hv
  rw [pathsAgree_iff_standsFor he hops]
  have hvalue := (eval_lowerUnary op (wellTyped_lowered env cg fn operand)).2
  show StandsFor _ ((lowerUnary op (lowered cg fn operand)).code.evalBoxed env)
    (runtimeValue env cg fn operand >>= fun v => boxedUnaryResult env.ops op v) ↔
      (op = '-' → ∀ v, _ → _)
  rw [hvalue, lowered_type, standsFor_bind_iff hv, forall_comm]
  refine forall_congr' fun v => ?_
  rw [forall_comm]
  refine forall_congr' fun hok => ?_
  rw [hok, standsFor_ok_iff] at hv
  exact unaryResult_standsFor_iff hops.1 (hasType_of_eval hv)

/-- Literals and variables are lowered alike. -/
theorem leaf_agrees {e : ASTExpr} (he : canUnboxExpr e = true) (hdepth : e.operatorDepth = 0) :
    PathsAgree env cg fn e := by
  have hops : e.hasKnownUnary := by
    cases e with
    | binary op left right => cases hdepth
    | unary op operand => cases hdepth
    | _ => exact trivial
  rw [pathsAgree_iff_standsFor he hops]
  cases e with
  | int k => exact .refl _
  | bool b => exact .refl _
  | double d => exact .refl _
  | var name =>
      rw [lowered_var_code]
      exact .refl _
  | binary op left right => cases hdepth
  | unary op operand => cases hdepth
  | _ => cases he

end Lowering

/-- Every variable holds 5, and no operation on doubles is used. -/
def fiveEnv : Env where
  ops :=
    { ofInt := fun _ => ⟨0⟩
      add := fun a _ => a
      sub := fun a _ => a
      mul := fun a _ => a
      div := fun a _ => a
      lt := fun _ _ => false }
  intSlot := fun _ => 5
  boolSlot := fun _ => true
  doubleSlot := fun _ => ⟨0⟩
  boxedSlot := fun _ => .int 5
  var := fun _ => .int 5
  self := .nil
  member := fun _ _ => .int 5

/-- `6 / 2 + x`, with a global `x`. -/
def quotientPlusGlobal : ASTExpr :=
  .binary '+' (.binary '/' (.int 6) (.int 2)) (.var "x".toList)

end BreadLang
