import BreadLang.Codegen.Stmt
import BreadLang.Codegen.Eval

/-!
# The code of an expression in registers

An expression of literals, variables and operators is built unboxed as far as
its operands allow it.  `lowered` is the result as a function of the expression,
and `yields_expr` says that the generator builds it.  `boxedLowering` is the
code in which every operator is the one of the runtime, which `cg_build_expr`
builds where it does not unbox.
-/

namespace BreadLang

open Stateful Lower

/-! ### The code that is built -/

/-- A `CgValue` that is not missing. -/
inductive Lowered where
  | boxed (code : Code)
  | unboxed (type : UnboxedType) (code : Code)

namespace Lowered

/-- As a `CgValue`. -/
def value : Lowered → CgValue
  | boxed c => .boxed (some c)
  | unboxed type c => .unboxed type c

/-- The code of the boxed value. -/
def code : Lowered → Code
  | boxed c => c
  | unboxed type c => .op (.box type) [c]

/-- The type of an unboxed value. -/
def type? : Lowered → Option UnboxedType
  | boxed _ => none
  | unboxed type _ => some type

/-- The code of the value as it is. -/
def raw : Lowered → Code
  | boxed c => c
  | unboxed _ c => c

@[simp] theorem boxValue_value (l : Lowered) : boxValue l.value = some l.code := by
  cases l <;> rfl

end Lowered

/-- The code of a binary operator. -/
def lowerBinary (op : Char) (l r : Lowered) : Lowered :=
  match l, r with
  | .unboxed s lv, .unboxed t rv =>
      match binaryInstruction op s t with
      | some (type, instruction) => .unboxed type (.op (.llvm instruction) [lv, rv])
      | none => .boxed (.op (.binaryOp op) [l.code, r.code])
  | _, _ => .boxed (.op (.binaryOp op) [l.code, r.code])

/-- The code of a unary operator. -/
def lowerUnary (op : Char) (v : Lowered) : Lowered :=
  match op, v with
  | '-', .unboxed .int n => .unboxed .int (.op (.llvm .sub) [.op (.constInt 0) [], n])
  | '-', .unboxed .double d => .unboxed .double (.op (.llvm .fneg) [d])
  | '!', .unboxed .bool c => .unboxed .bool (.op (.llvm .not) [c])
  | _, _ =>
      if op == '!' then .boxed (.op .unaryNot [v.code])
      else .boxed (.seq v.code (.op .setNil []))

/-- What the unboxed functions of the generator make of an expression. -/
def lowered (cg : Cg) (fn : Option CgCallee) : ASTExpr → Lowered
  | .int n => .unboxed .int (.op (.constInt n) [])
  | .bool b => .unboxed .bool (.op (.constBool b) [])
  | .double d => .unboxed .double (.op (.constReal d) [])
  | .var name =>
      match unboxedSlot cg fn name with
      | some (type, slot) => .unboxed type (.load type slot)
      | none => .boxed (buildVar cg fn name)
  | .binary op left right => lowerBinary op (lowered cg fn left) (lowered cg fn right)
  | .unary op operand => lowerUnary op (lowered cg fn operand)
  | _ => .boxed (.op .setNil [])

/-- `cg_build_expr` where every test of `cg_can_unbox_expr` is answered no. -/
def buildExprBoxed (b : Builder) (fn : Option CgCallee) (e : ASTExpr) : Lower Code :=
  match e with
  | .int n => return .op (.setInt n) []
  | .bool v => return .op (.setBool v) []
  | .double d => return .op (.setDouble d) []
  | .binary op left right => buildBinaryBoxed b fn op left right
  | .unary op operand => buildUnaryBoxed b fn op operand
  | e => buildExpr b fn e

/-- The builder of the boxed lowering. -/
def boxedBuilder : ℕ → Builder
  | 0 =>
      { expr := fun _ _ => throw .diverges
        exprUnboxed := fun _ _ => throw .diverges
        stmt := fun _ _ => throw .diverges }
  | n + 1 =>
      { expr := buildExprBoxed (boxedBuilder n)
        exprUnboxed := buildBoxed (boxedBuilder n)
        stmt := buildStmt (boxedBuilder n) }

/-- The code of the boxed lowering. -/
def boxedLowering (cg : Cg) (fn : Option CgCallee) : ASTExpr → Code
  | .int n => .op (.setInt n) []
  | .bool b => .op (.setBool b) []
  | .double d => .op (.setDouble d) []
  | .var name => buildVar cg fn name
  | .binary op left right =>
      .op (.binaryOp op) [boxedLowering cg fn left, boxedLowering cg fn right]
  | .unary op operand =>
      if op == '!' then .op .unaryNot [boxedLowering cg fn operand]
      else .op (.binaryOp '-') [.op (.setInt 0) [], boxedLowering cg fn operand]
  | _ => .op .setNil []

/-- Whether the unary operators of an expression are the two of the language. -/
def ASTExpr.hasKnownUnary : ASTExpr → Prop
  | .binary _ left right => left.hasKnownUnary ∧ right.hasKnownUnary
  | .unary op operand => (op = '-' ∨ op = '!') ∧ operand.hasKnownUnary
  | _ => True

/-- The nesting of operators in an expression. -/
def ASTExpr.operatorDepth : ASTExpr → ℕ
  | .binary _ left right => max left.operatorDepth right.operatorDepth + 1
  | .unary _ operand => operand.operatorDepth + 1
  | _ => 0

/-- A computation that yields a value and leaves the state alone. -/
def Yields {α : Type} (m : Lower α) (cg : Cg) (a : α) : Prop :=
  m.result cg = .ok a ∧ m.final cg = cg

section Yields

variable {α β : Type} {cg : Cg}

theorem yields_pure (a : α) : Yields (pure a) cg a :=
  ⟨rfl, rfl⟩

theorem Yields.bind {m : Lower α} {f : α → Lower β} {a : α} {b : β} (hm : Yields m cg a)
    (hf : Yields (f a) cg b) : Yields (m >>= f) cg b := by
  constructor
  · rw [result_bind, hm.1]
    show (f a).result (m.final cg) = .ok b
    rw [hm.2]
    exact hf.1
  · rw [final_bind_of_ok hm.1, hm.2]
    exact hf.2

theorem Yields.unique {m : Lower α} {a a' : α} (h : Yields m cg a) (h' : Yields m cg a') :
    a = a' :=
  Except.ok.inj (h.1.symm.trans h'.1)

theorem yields_get {f : Cg → Lower β} {b : β} (hf : Yields (f cg) cg b) :
    Yields (get >>= f) cg b :=
  hf

theorem Yields.testNull {m : Lower α} {a : α} (hm : Yields m cg a) :
    Yields (Lower.testNull m) cg (some a) := by
  refine ⟨?_, (final_attempt _ _ _).trans hm.2⟩
  unfold Lower.testNull
  rw [result_attempt, hm.1]

end Yields

section Builder

variable {cg : Cg} {fn : Option CgCallee}

theorem yields_binaryFallback (op : Char) (l r : Lowered) :
    Yields (buildBinaryFallback op l.value r.value) cg
      (Lowered.boxed (.op (.binaryOp op) [l.code, r.code])).value := by
  unfold buildBinaryFallback
  rw [Lowered.boxValue_value, Lowered.boxValue_value]
  exact yields_pure _

theorem yields_buildBinaryUnboxed {b : Builder} {left right : ASTExpr} {l r : Lowered}
    (op : Char) (hl : Yields (b.exprUnboxed fn left) cg l.value)
    (hr : Yields (b.exprUnboxed fn right) cg r.value) :
    Yields (buildBinaryUnboxed b fn left right op) cg (lowerBinary op l r).value := by
  unfold buildBinaryUnboxed
  refine hl.bind (hr.bind ?_)
  cases l with
  | boxed lc => exact yields_binaryFallback op (.boxed lc) r
  | unboxed s lv =>
      cases r with
      | boxed rc => exact yields_binaryFallback op (.unboxed s lv) (.boxed rc)
      | unboxed t rv =>
          simp only [Lowered.value, lowerBinary]
          cases binaryInstruction op s t with
          | none => exact yields_binaryFallback op (.unboxed s lv) (.unboxed t rv)
          | some i => exact yields_pure _

theorem yields_unaryFallback (cg : Cg) (op : Char) (v : Lowered) :
    Yields (buildUnaryFallback op v.value) cg
      (if op == '!' then Lowered.boxed (.op .unaryNot [v.code])
        else .boxed (.seq v.code (.op .setNil []))).value := by
  unfold buildUnaryFallback
  rw [Lowered.boxValue_value]
  show Yields (if op == '!' then _ else _) cg _
  split <;> exact yields_pure _

theorem yields_buildUnaryUnboxed {b : Builder} {operand : ASTExpr} {v : Lowered}
    (op : Char) (hv : Yields (b.exprUnboxed fn operand) cg v.value) :
    Yields (buildUnaryUnboxed b fn operand op) cg (lowerUnary op v).value := by
  unfold buildUnaryUnboxed
  refine hv.bind ?_
  have hfallback := yields_unaryFallback cg op v
  by_cases hminus : op = '-'
  · subst hminus
    cases v with
    | boxed c => exact hfallback
    | unboxed t c => cases t <;> exact yields_pure _
  · by_cases hnot : op = '!'
    · subst hnot
      cases v with
      | boxed c => exact hfallback
      | unboxed t c => cases t <;> exact yields_pure _
    · have hlower : lowerUnary op v = if op == '!' then .boxed (.op .unaryNot [v.code])
          else .boxed (.seq v.code (.op .setNil [])) := by
        unfold lowerUnary
        split
        · exact absurd rfl hminus
        · exact absurd rfl hminus
        · exact absurd rfl hnot
        · rfl
      rw [hlower]
      split
      · exact absurd rfl hminus
      · exact absurd rfl hminus
      · exact absurd rfl hnot
      · exact hfallback

theorem yields_var (name : Ident) (n : ℕ) :
    Yields ((builder (n + 1)).expr fn (.var name)) cg (buildVar cg fn name) :=
  yields_get (yields_pure _)

theorem lowered_var_code (name : Ident) :
    (lowered cg fn (.var name)).code = buildVar cg fn name := by
  unfold lowered unboxedSlot buildVar
  cases fn.bind fun _ => cg.scopeFindVar name with
  | none => rfl
  | some v =>
      dsimp only
      cases v.unboxedType <;> rfl

/-- The unboxed functions build what `lowered` says. -/
theorem yields_exprUnboxed : ∀ {e : ASTExpr} {n : ℕ}, canUnboxExpr e = true →
    e.operatorDepth + 2 ≤ n → Yields ((builder n).exprUnboxed fn e) cg (lowered cg fn e).value
  | .int k, n + 1, _, _ => yields_pure _
  | .bool b, n + 1, _, _ => yields_pure _
  | .double d, n + 1, _, _ => yields_pure _
  | .var name, n + 2, _, _ => by
      refine yields_get ?_
      unfold lowered
      cases unboxedSlot cg fn name with
      | some s => exact yields_pure _
      | none => exact ((yields_var name n).testNull).bind (yields_pure _)
  | .binary op left right, n + 1, he, hn => by
      have hcan : canUnboxExpr left = true ∧ canUnboxExpr right = true := by
        simpa [canUnboxExpr] using he
      have hdepth : max left.operatorDepth right.operatorDepth + 1 + 2 ≤ n + 1 := hn
      have hbuild := yields_buildBinaryUnboxed op
        (yields_exprUnboxed hcan.1 (n := n) (by omega))
        (yields_exprUnboxed hcan.2 (n := n) (by omega))
      show Yields (buildExprUnboxed (builder n) fn (.binary op left right)) cg _
      unfold buildExprUnboxed
      rw [he]
      exact hbuild
  | .unary op operand, n + 1, he, hn => by
      have hcan : canUnboxExpr operand = true := he
      have hdepth : operand.operatorDepth + 1 + 2 ≤ n + 1 := hn
      have hbuild := yields_buildUnaryUnboxed op
        (yields_exprUnboxed hcan (n := n) (by omega))
      show Yields (buildExprUnboxed (builder n) fn (.unary op operand)) cg _
      unfold buildExprUnboxed
      rw [he]
      exact hbuild

/-- **`cg_build_expr` builds what `lowered` says**, boxed. -/
theorem yields_expr {e : ASTExpr} {n : ℕ} (he : canUnboxExpr e = true)
    (hn : e.operatorDepth + 3 ≤ n) :
    Yields ((builder n).expr fn e) cg (lowered cg fn e).code := by
  obtain ⟨m, rfl⟩ : ∃ m, n = m + 1 := ⟨n - 1, by omega⟩
  have hunboxed : ∀ {e : ASTExpr}, canUnboxExpr e = true → e.operatorDepth + 2 ≤ m →
      Yields ((builder m).exprUnboxed fn e) cg (lowered cg fn e).value := yields_exprUnboxed
  cases e with
  | int k =>
      exact (hunboxed (e := .int k) rfl (by omega)).bind (yields_pure _)
  | bool b => exact (hunboxed (e := .bool b) rfl (by omega)).bind (yields_pure _)
  | double d => exact (hunboxed (e := .double d) rfl (by omega)).bind (yields_pure _)
  | var name =>
      rw [lowered_var_code]
      exact yields_var name m
  | binary op left right =>
      have hcan : canUnboxExpr left = true ∧ canUnboxExpr right = true := by
        simpa [canUnboxExpr] using he
      have hdepth : max left.operatorDepth right.operatorDepth + 1 + 3 ≤ m + 1 := hn
      show Yields (buildBinary (builder m) fn op left right) cg _
      unfold buildBinary
      rw [he]
      refine (yields_buildBinaryUnboxed op (hunboxed hcan.1 (by omega))
        (hunboxed hcan.2 (by omega))).bind ?_
      rw [Lowered.boxValue_value]
      exact yields_pure _
  | unary op operand =>
      have hcan : canUnboxExpr operand = true := he
      have hdepth : operand.operatorDepth + 1 + 3 ≤ m + 1 := hn
      show Yields (buildUnary (builder m) fn op operand) cg _
      unfold buildUnary
      rw [he]
      refine (yields_buildUnaryUnboxed op (hunboxed hcan (by omega))).bind ?_
      rw [Lowered.boxValue_value]
      exact yields_pure _
  | _ => cases he

/-- The boxed lowering is built by the rest of `cg_build_expr`. -/
theorem yields_boxedLowering : ∀ {e : ASTExpr} {n : ℕ}, canUnboxExpr e = true →
    e.hasKnownUnary → e.operatorDepth + 1 ≤ n →
    Yields ((boxedBuilder n).expr fn e) cg (boxedLowering cg fn e)
  | .int k, n + 1, _, _, _ => yields_pure _
  | .bool b, n + 1, _, _, _ => yields_pure _
  | .double d, n + 1, _, _, _ => yields_pure _
  | .var name, n + 1, _, _, _ => yields_get (yields_pure _)
  | .binary op left right, n + 1, he, hops, hn => by
      have hcan : canUnboxExpr left = true ∧ canUnboxExpr right = true := by
        simpa [canUnboxExpr] using he
      have hdepth : max left.operatorDepth right.operatorDepth + 1 + 1 ≤ n + 1 := hn
      exact (yields_boxedLowering hcan.1 hops.1 (by omega)).bind
        ((yields_boxedLowering hcan.2 hops.2 (by omega)).bind (yields_pure _))
  | .unary op operand, n + 1, he, hops, hn => by
      have hcan : canUnboxExpr operand = true := he
      have hdepth : operand.operatorDepth + 1 + 1 ≤ n + 1 := hn
      have hoperand := yields_boxedLowering (n := n) hcan hops.2 (by omega)
      rcases hops.1 with rfl | rfl
      · exact hoperand.bind (yields_pure _)
      · exact hoperand.bind (yields_pure _)

end Builder

end BreadLang
