import BreadLang.Codegen.Unboxing
import BreadLang.Library.Outcome

/-!
# Operators in registers and in the runtime

What the code of an operator computes, given the boxed values of its operands:
`binaryResult` and `unaryResult`, by `eval_lowerBinary` and `eval_lowerUnary`.
`binaryResult_standsFor_iff` and `unaryResult_standsFor_iff` say for which
operands that is what the functions of the runtime compute.

An outcome of the runtime that is undefined (an overflow of `int64_t`) promises
nothing, so any outcome may stand for it.
-/

namespace BreadLang

/-! ### Registers and boxed values -/

namespace RuntimeValue

/-- The type of a register. -/
def type? : RuntimeValue → Option UnboxedType
  | boxed _ => none
  | int _ => some .int
  | bool _ => some .bool
  | double _ => some .double

/-- `cg_box_value`, on values. -/
def toBoxed : RuntimeValue → BreadValue
  | boxed v => v
  | int n => .int n
  | bool b => .bool b
  | double d => .double d

end RuntimeValue

/-- The register whose value is boxed. -/
def BreadValue.inRegister : BreadValue → RuntimeValue
  | .int n => .int n
  | .bool b => .bool b
  | .double d => .double d
  | v => .boxed v

theorem inRegister_toBoxed {v : RuntimeValue} {t : UnboxedType} (h : v.type? = some t) :
    v.toBoxed.inRegister = v := by
  cases v with
  | boxed w => cases h
  | int n => rfl
  | bool b => rfl
  | double d => rfl

/-- The undefined outcomes. -/
def EvalError.IsUndefined : EvalError → Prop
  | .stop (.undefined _) => True
  | _ => False

/-! ### Operators on the values of their operands -/

section Operators

variable (ops : DoubleOps)

/-- What the emitted operation of a binary operator computes from the boxed values
of its operands, which have been built with the given types. -/
def binaryResult (op : Char) (s t : Option UnboxedType) (l r : BreadValue) : Eval BreadValue :=
  match s, t with
  | some s, some t =>
      match binaryInstruction op s t with
      | some (_, i) => RuntimeValue.toBoxed <$> evalLLVM ops i [l.inRegister, r.inRegister]
      | none => liftExec (breadBinaryOp ops op l r)
  | _, _ => liftExec (breadBinaryOp ops op l r)

/-- What the emitted operation of a unary operator computes. -/
def unaryResult (op : Char) (t : Option UnboxedType) (v : BreadValue) : BreadValue :=
  match op, t, v with
  | '-', some .int, .int n => .int (.wrap (0 - n.val))
  | '-', some .double, .double d => .double d.neg
  | '!', some .bool, .bool b => .bool !b
  | _, _, _ => if op == '!' then breadUnaryNot v else .nil

/-- What the runtime computes for a unary operator. -/
def boxedUnaryResult (op : Char) (v : BreadValue) : Eval BreadValue :=
  if op == '!' then .ok (breadUnaryNot v)
  else liftExec (breadBinaryOp ops '-' (.int 0) v)

/-- **A division that the instruction and the runtime treat alike**: its divisor
is not zero, when the operands are two registers of one type. -/
def DivisionSafe (op : Char) (s t : Option UnboxedType) (r : BreadValue) : Prop :=
  (s = some .int → t = some .int → op = '/' ∨ op = '%' →
    ∀ n : BreadInt, r = .int n → n.val ≠ 0) ∧
  (s = some .double → t = some .double → op = '/' →
    ∀ d : DoubleBits, r = .double d → d.isZero = false)

/-- **A negation that both lowerings treat alike.**  A boxed operand must not be a
number whose negation is defined: the unboxed path answers nil.  A `double` in a
register has its sign changed, and the runtime subtracts it from zero. -/
def NegationSafe (t : Option UnboxedType) (v : BreadValue) : Prop :=
  match t, v with
  | none, .int n => n.val = -2 ^ 63
  | none, .double _ => False
  | some .double, .double d => ops.sub (ops.ofInt 0) d = d.neg
  | _, _ => True

end Operators

/-! ### The types of registers -/

theorem type_eq_int {v : RuntimeValue} (h : v.type? = some .int) : ∃ n, v = .int n := by
  cases v with
  | int n => exact ⟨n, rfl⟩
  | _ => cases h

theorem type_eq_double {v : RuntimeValue} (h : v.type? = some .double) :
    ∃ d, v = .double d := by
  cases v with
  | double d => exact ⟨d, rfl⟩
  | _ => cases h

theorem type_eq_bool {v : RuntimeValue} (h : v.type? = some .bool) : ∃ b, v = .bool b := by
  cases v with
  | bool b => exact ⟨b, rfl⟩
  | _ => cases h

theorem type_eq_none {v : RuntimeValue} (h : v.type? = none) : ∃ w, v = .boxed w := by
  cases v with
  | boxed w => exact ⟨w, rfl⟩
  | _ => cases h

/-- The table of an operator gives the type of the result. -/
theorem evalIntOp_type {op : Char} {t : UnboxedType} {i : LLVMOp} {a b : BreadInt}
    {v : RuntimeValue} (hi : intInstruction op = some (t, i)) (hv : evalIntOp i a b = .ok v) :
    v.type? = some t := by
  have hdiv : ∀ f : ℤ → ℤ → ℤ, (if b.val == 0 then .error (.stop (.undefined .divisionTrap))
      else do return .int (← liftExec (divInt64 f a b)) : Eval RuntimeValue) = .ok v →
      v.type? = some .int := by
    intro f h
    split at h
    · cases h
    · obtain ⟨n, -, hn⟩ := bind_eq_ok.mp h
      cases hn
      rfl
  unfold intInstruction at hi
  split at hi <;> cases hi
  case h_4 => exact hdiv Int.tdiv hv
  case h_5 => exact hdiv Int.tmod hv
  all_goals
    cases hv
    rfl

theorem evalDoubleOp_type {ops : DoubleOps} {op : Char} {t : UnboxedType} {i : LLVMOp}
    {a b : DoubleBits} {v : RuntimeValue} (hi : doubleInstruction op = some (t, i))
    (hv : evalDoubleOp ops i a b = .ok v) : v.type? = some t := by
  unfold doubleInstruction at hi
  split at hi <;> cases hi
  all_goals
    cases hv
    rfl

theorem evalLLVM_type {ops : DoubleOps} {op : Char} {s t u : UnboxedType} {i : LLVMOp}
    {a b v : RuntimeValue} (hi : binaryInstruction op s t = some (u, i))
    (ha : a.type? = some s) (hb : b.type? = some t) (hv : evalLLVM ops i [a, b] = .ok v) :
    v.type? = some u := by
  cases s <;> cases t <;> try cases hi
  case int.int =>
    obtain ⟨m, rfl⟩ := type_eq_int ha
    obtain ⟨n, rfl⟩ := type_eq_int hb
    exact evalIntOp_type hi hv
  case double.double =>
    obtain ⟨d, rfl⟩ := type_eq_double ha
    obtain ⟨e, rfl⟩ := type_eq_double hb
    exact evalDoubleOp_type hi hv

/-! ### The code of an operator -/

/-- The value of code has the type with which it has been built. -/
def Lowered.WellTyped (env : Env) (l : Lowered) : Prop :=
  ∀ v, l.raw.eval env = .ok v → v.type? = l.type?

section Code

variable {env : Env} {l r : Lowered}

theorem evalOp_box {v : RuntimeValue} {t : UnboxedType} (h : v.type? = some t) :
    evalOp env (.box t) [v] = .ok (.boxed v.toBoxed) := by
  cases t with
  | int => obtain ⟨n, rfl⟩ := type_eq_int h; rfl
  | bool => obtain ⟨b, rfl⟩ := type_eq_bool h; rfl
  | double => obtain ⟨d, rfl⟩ := type_eq_double h; rfl

theorem Lowered.WellTyped.eval_code (h : l.WellTyped env) :
    l.code.eval env = RuntimeValue.boxed <$> (RuntimeValue.toBoxed <$> l.raw.eval env) := by
  cases l with
  | boxed c =>
      show c.eval env = RuntimeValue.boxed <$> (RuntimeValue.toBoxed <$> c.eval env)
      cases hc : c.eval env with
      | error e => rfl
      | ok v =>
          obtain ⟨w, rfl⟩ := type_eq_none (h v hc)
          rfl
  | unboxed t c =>
      show (Code.op (.box t) [c]).eval env =
        RuntimeValue.boxed <$> (RuntimeValue.toBoxed <$> c.eval env)
      rw [eval_unary]
      cases hc : c.eval env with
      | error e => rfl
      | ok v => exact evalOp_box (h v hc)

theorem Lowered.WellTyped.isBoxed (h : l.WellTyped env) : l.code.IsBoxed env :=
  isBoxed_of_eval h.eval_code

/-- The boxed value of the code is the value of the register. -/
theorem Lowered.WellTyped.evalBoxed_code (h : l.WellTyped env) :
    l.code.evalBoxed env = RuntimeValue.toBoxed <$> l.raw.eval env :=
  evalBoxed_of_eval h.eval_code

/-- The operands of an instruction, read from their boxed values. -/
theorem eval_operands (hl : l.WellTyped env) (hr : r.WellTyped env) {s t : UnboxedType}
    (hs : l.type? = some s) (ht : r.type? = some t)
    (f : RuntimeValue → RuntimeValue → Eval BreadValue) :
    (l.raw.eval env >>= fun v => r.raw.eval env >>= fun w => f v w) =
      l.code.evalBoxed env >>= fun a => r.code.evalBoxed env >>= fun b =>
        f a.inRegister b.inRegister := by
  rw [hl.evalBoxed_code, hr.evalBoxed_code]
  cases hv : l.raw.eval env with
  | error e => rfl
  | ok v =>
      cases hw : r.raw.eval env with
      | error e => rfl
      | ok w =>
          have hv' := inRegister_toBoxed ((hl v hv).trans hs)
          have hw' := inRegister_toBoxed ((hr w hw).trans ht)
          show f v w = f v.toBoxed.inRegister w.toBoxed.inRegister
          rw [hv', hw']

theorem wellTyped_boxed {c : Code} (h : c.IsBoxed env) : (Lowered.boxed c).WellTyped env := by
  intro v hv
  obtain ⟨w, rfl⟩ := h v hv
  rfl

/-! ### Binary operators -/

/-- The operation of the runtime on the operands. -/
theorem eval_boxedBinary (op : Char) (hl : l.WellTyped env) (hr : r.WellTyped env) :
    (Lowered.boxed (.op (.binaryOp op) [l.code, r.code])).WellTyped env ∧
      (Code.op (.binaryOp op) [l.code, r.code]).evalBoxed env =
        l.code.evalBoxed env >>= fun a => r.code.evalBoxed env >>= fun b =>
          liftExec (breadBinaryOp env.ops op a b) :=
  have heval := @eval_binaryOp env op _ _ hl.isBoxed hr.isBoxed
  ⟨wellTyped_boxed (isBoxed_of_eval heval), evalBoxed_of_eval heval⟩

/-- The code of a binary operator is well typed, and computes `binaryResult`. -/
theorem eval_lowerBinary (op : Char) (hl : l.WellTyped env) (hr : r.WellTyped env) :
    (lowerBinary op l r).WellTyped env ∧
      (lowerBinary op l r).code.evalBoxed env =
        l.code.evalBoxed env >>= fun a => r.code.evalBoxed env >>= fun b =>
          binaryResult env.ops op l.type? r.type? a b := by
  have hboxed := eval_boxedBinary op hl hr
  cases l with
  | boxed lc => exact hboxed
  | unboxed s lv =>
      cases r with
      | boxed rc => exact hboxed
      | unboxed t rv =>
          cases hi : binaryInstruction op s t with
          | none =>
              simp only [lowerBinary, binaryResult, Lowered.type?, hi]
              exact hboxed
          | some ui =>
              obtain ⟨u, i⟩ := ui
              have hraw : (Code.op (.llvm i) [lv, rv]).eval env =
                  lv.eval env >>= fun v => rv.eval env >>= fun w => evalLLVM env.ops i [v, w] :=
                eval_binary _ _ _
              have htyped :
                  (Lowered.unboxed u (.op (.llvm i) [lv, rv])).WellTyped env := by
                intro x hx
                have hx : (Code.op (.llvm i) [lv, rv]).eval env = .ok x := hx
                rw [hraw] at hx
                obtain ⟨v, hv, hx⟩ := bind_eq_ok.mp hx
                obtain ⟨w, hw, hx⟩ := bind_eq_ok.mp hx
                exact evalLLVM_type hi (hl v hv) (hr w hw) hx
              simp only [lowerBinary, binaryResult, Lowered.type?, hi]
              refine ⟨htyped, ?_⟩
              rw [htyped.evalBoxed_code]
              show RuntimeValue.toBoxed <$> (Code.op (.llvm i) [lv, rv]).eval env = _
              rw [hraw]
              simp only [map_bind]
              exact eval_operands hl hr rfl rfl
                fun v w => RuntimeValue.toBoxed <$> evalLLVM env.ops i [v, w]

/-! ### Unary operators -/

/-- An instruction on one register, on a value of its type. -/
theorem eval_instruction {t u : UnboxedType} {c n : Code}
    (hn : (Lowered.unboxed t n).WellTyped env) {g : RuntimeValue → Eval RuntimeValue}
    (hc : c.eval env = n.eval env >>= g) (f : BreadValue → BreadValue)
    (hg : ∀ v, v.type? = some t →
      ∃ w, g v = .ok w ∧ w.type? = some u ∧ w.toBoxed = f v.toBoxed) :
    (Lowered.unboxed u c).WellTyped env ∧
      (Lowered.unboxed u c).code.evalBoxed env =
        (Lowered.unboxed t n).code.evalBoxed env >>= fun v => .ok (f v) := by
  have htyped : (Lowered.unboxed u c).WellTyped env := by
    intro x hx
    have hx : c.eval env = .ok x := hx
    rw [hc] at hx
    obtain ⟨v, hv, hx⟩ := bind_eq_ok.mp hx
    obtain ⟨w, hw, hu, -⟩ := hg v (hn v hv)
    rw [hw] at hx
    cases hx
    exact hu
  refine ⟨htyped, ?_⟩
  rw [htyped.evalBoxed_code, hn.evalBoxed_code]
  show RuntimeValue.toBoxed <$> c.eval env = (RuntimeValue.toBoxed <$> n.eval env) >>= _
  rw [hc]
  cases hv : n.eval env with
  | error e => rfl
  | ok v =>
      obtain ⟨w, hw, -, hf⟩ := hg v (hn v hv)
      show RuntimeValue.toBoxed <$> g v = .ok (f v.toBoxed)
      rw [hw]
      exact congrArg Except.ok hf

/-- The fallback of a unary operator. -/
theorem eval_unaryFallback (op : Char) (hl : l.WellTyped env) :
    (if op == '!' then Lowered.boxed (.op .unaryNot [l.code])
      else .boxed (.seq l.code (.op .setNil []))).WellTyped env ∧
    (if op == '!' then Lowered.boxed (.op .unaryNot [l.code])
      else .boxed (.seq l.code (.op .setNil []))).code.evalBoxed env =
        l.code.evalBoxed env >>= fun v =>
          .ok (if op == '!' then breadUnaryNot v else .nil) := by
  by_cases hop : (op == '!') = true
  · simp only [hop, if_true]
    have heval := eval_unaryNot hl.isBoxed
    exact ⟨wellTyped_boxed (isBoxed_of_eval heval), evalBoxed_of_eval heval⟩
  · simp only [hop]
    have heval : (Code.seq l.code (.op .setNil [])).eval env =
        RuntimeValue.boxed <$> (l.code.evalBoxed env >>= fun _ => .ok .nil) := by
      show (l.code.eval env >>= fun _ => .ok (RuntimeValue.boxed .nil)) = _
      rw [hl.isBoxed.eval_eq]
      cases l.code.evalBoxed env <;> rfl
    exact ⟨wellTyped_boxed (isBoxed_of_eval heval), evalBoxed_of_eval heval⟩

/-- The code of a unary operator is well typed, and computes `unaryResult`. -/
theorem eval_lowerUnary (op : Char) (hl : l.WellTyped env) :
    (lowerUnary op l).WellTyped env ∧
      (lowerUnary op l).code.evalBoxed env =
        l.code.evalBoxed env >>= fun v => .ok (unaryResult op l.type? v) := by
  by_cases hinstr : ∃ t n, l = .unboxed t n ∧
      (op = '-' ∧ (t = .int ∨ t = .double) ∨ op = '!' ∧ t = .bool)
  · obtain ⟨t, n, rfl, ⟨rfl, rfl | rfl⟩ | ⟨rfl, rfl⟩⟩ := hinstr
    · have hsub : (Code.op (.llvm .sub) [.op (.constInt 0) [], n]).eval env =
          n.eval env >>= fun v => evalLLVM env.ops .sub [.int 0, v] := eval_binary _ _ _
      refine eval_instruction hl hsub (unaryResult '-' (some .int)) fun v hv => ?_
      obtain ⟨k, rfl⟩ := type_eq_int hv
      exact ⟨_, rfl, rfl, rfl⟩
    · refine eval_instruction hl (eval_unary _ _) (unaryResult '-' (some .double)) fun v hv => ?_
      obtain ⟨d, rfl⟩ := type_eq_double hv
      exact ⟨_, rfl, rfl, rfl⟩
    · refine eval_instruction hl (eval_unary _ _) (unaryResult '!' (some .bool)) fun v hv => ?_
      obtain ⟨b, rfl⟩ := type_eq_bool hv
      exact ⟨_, rfl, rfl, rfl⟩
  · have hcode : lowerUnary op l = if op == '!' then .boxed (.op .unaryNot [l.code])
        else .boxed (.seq l.code (.op .setNil [])) := by
      unfold lowerUnary
      split
      · exact absurd ⟨_, _, rfl, .inl ⟨rfl, .inl rfl⟩⟩ hinstr
      · exact absurd ⟨_, _, rfl, .inl ⟨rfl, .inr rfl⟩⟩ hinstr
      · exact absurd ⟨_, _, rfl, .inr ⟨rfl, rfl⟩⟩ hinstr
      · rfl
    have hvalue : ∀ v, unaryResult op l.type? v =
        if op == '!' then breadUnaryNot v else .nil := by
      intro v
      cases l with
      | boxed c =>
          unfold unaryResult
          split <;> first | rfl | (rename_i h; cases h)
      | unboxed t n =>
          unfold unaryResult
          split
          · rename_i h
            cases h
            exact absurd ⟨_, _, rfl, .inl ⟨rfl, .inl rfl⟩⟩ hinstr
          · rename_i h
            cases h
            exact absurd ⟨_, _, rfl, .inl ⟨rfl, .inr rfl⟩⟩ hinstr
          · rename_i h
            cases h
            exact absurd ⟨_, _, rfl, .inr ⟨rfl, rfl⟩⟩ hinstr
          · rfl
    rw [hcode]
    simp only [hvalue]
    exact eval_unaryFallback op hl

end Code

/-! ### Where instructions and runtime functions agree -/

section Values

variable {ops : DoubleOps}

/-- The values of a type. -/
def BreadValue.HasType (t : Option UnboxedType) (v : BreadValue) : Prop :=
  ∀ u, t = some u → v.inRegister.type? = some u

theorem hasType_int {v : BreadValue} (h : v.HasType (some .int)) : ∃ n, v = .int n := by
  have htype := h .int rfl
  cases v with
  | int n => exact ⟨n, rfl⟩
  | _ => cases htype

theorem hasType_bool {v : BreadValue} (h : v.HasType (some .bool)) : ∃ b, v = .bool b := by
  have htype := h .bool rfl
  cases v with
  | bool b => exact ⟨b, rfl⟩
  | _ => cases htype

theorem hasType_double {v : BreadValue} (h : v.HasType (some .double)) : ∃ d, v = .double d := by
  have htype := h .double rfl
  cases v with
  | double d => exact ⟨d, rfl⟩
  | _ => cases htype

theorem wrap_of_mem {x : ℤ} (h : -2 ^ 63 ≤ x ∧ x < 2 ^ 63) : BreadInt.wrap x = ⟨x, h⟩ := by
  have hbmod : x.bmod (2 ^ 64) = x := by
    apply Int.bmod_eq_of_le <;> omega
  unfold BreadInt.wrap
  simp only [hbmod]

/-- An overflow of the C code is undefined, and the instruction wraps. -/
theorem wrap_standsFor (x : ℤ) :
    StandsFor EvalError.IsUndefined (.ok (.int (.wrap x)))
      (liftExec (do return BreadValue.int (← checkedInt64 x))) := by
  unfold checkedInt64
  split
  · rename_i h
    rw [wrap_of_mem h]
    exact .refl _
  · exact standsFor_error_iff.mpr (.inl trivial)

/-- The outcome of a comparison. -/
def boolOutcome (b : Bool) : Eval BreadValue := .ok (.bool b)

theorem compare_beq_eq (a b : ℤ) : (compare a b == .eq) = (a == b) := by
  rw [Bool.eq_iff_iff, beq_iff_eq, beq_iff_eq, Int.compare_eq_eq]

theorem compare_beq_lt (a b : ℤ) : (compare a b == .lt) = decide (a < b) := by
  rw [Bool.eq_iff_iff, beq_iff_eq, decide_eq_true_iff, Int.compare_eq_lt]

theorem compare_beq_gt (a b : ℤ) : (compare a b == .gt) = decide (b < a) := by
  rw [Bool.eq_iff_iff, beq_iff_eq, decide_eq_true_iff, Int.compare_eq_gt]

/-- A division by zero: the instruction has undefined behaviour, the runtime
aborts. -/
theorem not_standsFor_abort {u : Eval BreadValue} {e : BreadError}
    (h : u ≠ .error (.stop (.abort e))) :
    ¬ StandsFor EvalError.IsUndefined u (.error (.stop (.abort e))) := by
  intro hstands
  rcases standsFor_error_iff.mp hstands with hu | hu
  · exact hu
  · exact h hu

theorem intDivision_standsFor_iff {f : ℤ → ℤ → ℤ} {a b : BreadInt} {e : BreadError} :
    StandsFor EvalError.IsUndefined
      (RuntimeValue.toBoxed <$> if b.val == 0 then .error (.stop (.undefined .divisionTrap))
        else do return .int (← liftExec (divInt64 f a b)))
      (liftExec (if b.val == 0 then .error (.abort e)
        else do return .int (← divInt64 f a b))) ↔ b.val ≠ 0 := by
  by_cases hb : b.val = 0
  · simp only [hb]
    exact iff_of_false (not_standsFor_abort nofun) (fun h => h rfl)
  · rw [if_neg (by simpa using hb), if_neg (by simpa using hb)]
    refine iff_of_true ?_ hb
    cases divInt64 f a b <;> exact .refl _

/-- The instructions on two `i64`. -/
theorem intInstruction_standsFor_iff {op : Char} {t : UnboxedType} {i : LLVMOp} {a b : BreadInt}
    (hi : intInstruction op = some (t, i)) :
    StandsFor EvalError.IsUndefined (RuntimeValue.toBoxed <$> evalIntOp i a b)
        (liftExec (breadBinaryOp ops op (.int a) (.int b))) ↔
      (op = '/' ∨ op = '%' → b.val ≠ 0) := by
  unfold intInstruction at hi
  split at hi <;> cases hi
  case h_4 =>
    rw [imp_iff_right (.inl rfl)]
    exact intDivision_standsFor_iff
  case h_5 =>
    rw [imp_iff_right (.inr rfl)]
    exact intDivision_standsFor_iff
  all_goals refine iff_of_true ?_ (fun h => absurd h (by decide))
  case h_1 => exact wrap_standsFor _
  case h_2 => exact wrap_standsFor _
  case h_3 => exact wrap_standsFor _
  case h_6 => exact .inr (congrArg boolOutcome (compare_beq_eq _ _).symm)
  case h_7 => exact .inr (congrArg boolOutcome (compare_beq_lt _ _).symm)
  case h_8 => exact .inr (congrArg boolOutcome (compare_beq_gt _ _).symm)

/-- The instructions on two `double`s. -/
theorem doubleInstruction_standsFor_iff {op : Char} {t : UnboxedType} {i : LLVMOp}
    {a b : DoubleBits} (hi : doubleInstruction op = some (t, i)) :
    StandsFor EvalError.IsUndefined (RuntimeValue.toBoxed <$> evalDoubleOp ops i a b)
        (liftExec (breadBinaryOp ops op (.double a) (.double b))) ↔
      (op = '/' → b.isZero = false) := by
  unfold doubleInstruction at hi
  split at hi <;> cases hi
  case h_4 =>
    rw [imp_iff_right rfl]
    have hboxed : breadBinaryOp ops '/' (.double a) (.double b) =
        if b.isZero then .error (.abort ⟨.divisionByZero, "Floating point division by zero"⟩)
        else .ok (.double (ops.div a b)) := rfl
    rw [hboxed]
    cases b.isZero with
    | false => exact iff_of_true (.refl _) rfl
    | true => exact iff_of_false (not_standsFor_abort nofun) nofun
  all_goals exact iff_of_true (.refl _) (fun h => absurd h (by decide))

/-- **A binary operator computes what the runtime computes exactly when its
division is safe.** -/
theorem binaryResult_standsFor_iff {op : Char} {s t : Option UnboxedType} {l r : BreadValue}
    (hl : l.HasType s) (hr : r.HasType t) :
    StandsFor EvalError.IsUndefined (binaryResult ops op s t l r)
      (liftExec (breadBinaryOp ops op l r)) ↔ DivisionSafe op s t r := by
  by_cases hint : s = some .int ∧ t = some .int
  · obtain ⟨rfl, rfl⟩ := hint
    obtain ⟨a, rfl⟩ := hasType_int hl
    obtain ⟨b, rfl⟩ := hasType_int hr
    have hsafe : DivisionSafe op (some .int) (some .int) (.int b) ↔
        (op = '/' ∨ op = '%' → b.val ≠ 0) :=
      ⟨fun h hop => h.1 rfl rfl hop b rfl,
        fun h => ⟨fun _ _ hop n hn => by cases hn; exact h hop, nofun⟩⟩
    rw [hsafe]
    cases hi : intInstruction op with
    | none =>
        simp only [binaryResult, binaryInstruction, hi]
        refine iff_of_true (.refl _) (fun hop => ?_)
        rcases hop with rfl | rfl <;> cases hi
    | some ti =>
        simp only [binaryResult, binaryInstruction, hi]
        exact intInstruction_standsFor_iff hi
  · by_cases hdouble : s = some .double ∧ t = some .double
    · obtain ⟨rfl, rfl⟩ := hdouble
      obtain ⟨a, rfl⟩ := hasType_double hl
      obtain ⟨b, rfl⟩ := hasType_double hr
      have hsafe : DivisionSafe op (some .double) (some .double) (.double b) ↔
          (op = '/' → b.isZero = false) :=
        ⟨fun h hop => h.2 rfl rfl hop b rfl,
          fun h => ⟨nofun, fun _ _ hop d hd => by cases hd; exact h hop⟩⟩
      rw [hsafe]
      cases hi : doubleInstruction op with
      | none =>
          simp only [binaryResult, binaryInstruction, hi]
          refine iff_of_true (.refl _) (fun hop => ?_)
          cases hop
          cases hi
      | some ti =>
          simp only [binaryResult, binaryInstruction, hi]
          exact doubleInstruction_standsFor_iff hi
    · have hboxed : binaryResult ops op s t l r = liftExec (breadBinaryOp ops op l r) := by
        unfold binaryResult binaryInstruction
        split
        · split
          · rename_i hi
            split at hi
            · exact absurd ⟨rfl, rfl⟩ hint
            · exact absurd ⟨rfl, rfl⟩ hdouble
            · cases hi
          · rfl
        · rfl
      rw [hboxed]
      exact iff_of_true (.refl _)
        ⟨fun hs ht => absurd ⟨hs, ht⟩ hint, fun hs ht => absurd ⟨hs, ht⟩ hdouble⟩

/-- **A unary operator computes what the runtime computes exactly when its
negation is safe.** -/
theorem unaryResult_standsFor_iff {op : Char} (hop : op = '-' ∨ op = '!')
    {t : Option UnboxedType} {v : BreadValue} (hv : v.HasType t) :
    StandsFor EvalError.IsUndefined (.ok (unaryResult op t v)) (boxedUnaryResult ops op v) ↔
      (op = '-' → NegationSafe ops t v) := by
  rcases hop with rfl | rfl
  · rw [imp_iff_right rfl]
    cases t with
    | none =>
        cases v with
        | int n =>
            have hnegated : StandsFor EvalError.IsUndefined (.ok .nil)
                (liftExec (do return BreadValue.int (← checkedInt64 (0 - n.val)))) ↔
                n.val = -2 ^ 63 := by
              have hn := n.isInt64
              unfold checkedInt64
              split
              · exact iff_of_false (fun h => nomatch standsFor_ok_iff.mp h) (by omega)
              · exact iff_of_true (standsFor_error_iff.mpr (.inl trivial)) (by omega)
            exact hnegated
        | double d => exact iff_of_false (fun h => nomatch standsFor_ok_iff.mp h) id
        | _ => exact iff_of_true (.refl _) trivial
    | some t =>
        cases t with
        | int =>
            obtain ⟨n, rfl⟩ := hasType_int hv
            exact iff_of_true (wrap_standsFor _) trivial
        | bool =>
            obtain ⟨b, rfl⟩ := hasType_bool hv
            exact iff_of_true (.refl _) trivial
        | double =>
            obtain ⟨d, rfl⟩ := hasType_double hv
            show StandsFor EvalError.IsUndefined (.ok (BreadValue.double d.neg))
              (.ok (BreadValue.double (ops.sub (ops.ofInt 0) d))) ↔
                ops.sub (ops.ofInt 0) d = d.neg
            rw [standsFor_ok_iff]
            constructor
            · intro h
              exact (BreadValue.double.inj (Except.ok.inj h)).symm
            · intro h
              rw [h]
  · refine iff_of_true (.inr ?_) (fun h => absurd h (by decide))
    show Except.ok (unaryResult '!' t v) = .ok (breadUnaryNot v)
    unfold unaryResult
    split <;> first | rfl | (rename_i h; cases h)

end Values

end BreadLang
