import BreadLang.Codegen.Infer
import BreadLang.Codegen.UnboxedMeaning
import BreadLang.Runtime.Operators

/-!
# The types of operators

`cg_infer_expr_type_desc_simple` decides from the types of the operands what the type of
an operator is, and the runtime from the tags of the values.  The two tables agree on the
arithmetic of equal types, on strings and on booleans.  They disagree on `%`, which the
runtime has for `Int` only, and on comparisons: the inference accepts all of them, the
runtime those of two values of one type that can be compared.

`binarySound_iff` compares the tables operator by operator; `operatorsSound_iff` puts the
operators of an expression together.
-/

namespace BreadLang

/-! ### One operator -/

/-- **What the type of an operator promises**: no type mismatch is recorded, and if there is
no error the result has the type. -/
def SoundResult (t : VarType) (r : Exec Recorded) : Prop :=
  ∀ v error, r = .ok (v, error) →
    (∀ e, error = some e → e.type ≠ .typeMismatch) ∧ (error = none → v.type = t)

theorem soundResult_succeed {t : VarType} {v : BreadValue} (h : v.type = t) :
    SoundResult t (succeed v) := by
  rintro _ _ ⟨⟩
  exact ⟨fun _ he => (by cases he), fun _ => h⟩

theorem soundResult_bind {t : VarType} {α : Type} {m : Exec α} {f : α → BreadValue}
    (h : ∀ a, m = .ok a → (f a).type = t) : SoundResult t (m >>= fun a => succeed (f a)) := by
  cases hm : m with
  | error e => exact fun _ _ h => by cases h
  | ok a => exact soundResult_succeed (h a hm)

theorem not_soundResult_typeMismatch (t : VarType) (message : String) :
    ¬ SoundResult t (typeMismatch message) :=
  fun h => (h _ _ rfl).1 _ rfl rfl

/-- The comparison operators, as the parser encodes them. -/
def isComparisonOp (op : Char) : Bool :=
  op == '=' || op == '!' || op == '<' || op == '>' || op == 'l' || op == 'g'

/-- **The binary operators on which the two tables agree**: `%` of integers, and comparisons
of two values of one type, for equality only if they are references, and never of nil. -/
structure OperatorMeets (op : Char) (left right : TypeDescriptor) : Prop where
  modulo : op = '%' → left.baseType = .typeInt
  sameType : isComparisonOp op = true → left.baseType = right.baseType
  comparable : isComparisonOp op = true → left.baseType ≠ .typeNil
  equality : isComparisonOp op = true → left.baseType.isComplex = true → op = '=' ∨ op = '!'

theorem baseType_of_equals : ∀ {a b : TypeDescriptor}, a.equals b = true → a.baseType = b.baseType := by
  intro a b h
  cases a <;> cases b <;>
    first
      | rfl
      | (unfold TypeDescriptor.equals at h; cases h)

section Binary

variable {op : Char} {left right type : TypeDescriptor}

/-- The operators that have a type. -/
theorem binaryTypeDesc_cases (h : binaryTypeDesc op left right = .ok type) :
    (op = '+' ∧ left.baseType = .typeString ∧ right.baseType = .typeString ∧ type = left) ∨
    (isArithmeticOp op = true ∧ left.baseType = right.baseType ∧ isNumeric left = true ∧
      type.baseType = if left.baseType = .typeInt then .typeInt else .typeDouble) ∨
    (isComparisonOp op = true ∧ isArithmeticOp op = false ∧ type = .bool) ∨
    ((op = '&' ∨ op = '|') ∧ left.baseType = .typeBool ∧ right.baseType = .typeBool ∧
      type = .bool) := by
  unfold binaryTypeDesc at h
  cases harith : isArithmeticOp op with
  | true =>
      rw [harith, if_pos rfl] at h
      split at h
      · rename_i hstring
        simp only [Bool.and_eq_true, beq_iff_eq] at hstring
        cases h
        exact .inl ⟨hstring.1.1, hstring.1.2, hstring.2, rfl⟩
      split at h
      · cases h
      split at h
      · cases h
      rename_i _ hequals hnumeric
      have hbase := baseType_of_equals (Bool.not_eq_false _ ▸ (by simpa using hequals) :
        left.equals right = true)
      have hnumeric : isNumeric left = true := by simpa using hnumeric
      refine .inr (.inl ⟨rfl, hbase, hnumeric, ?_⟩)
      split at h
      · rename_i hint
        cases h
        rw [if_pos (by simpa using hint)]
        simpa using hint
      · rename_i hint
        cases h
        rw [if_neg (by simpa using hint)]
        rfl
  | false =>
      rw [harith, if_neg Bool.false_ne_true] at h
      split at h
      · rename_i hcompare
        cases h
        refine .inr (.inr (.inl ⟨?_, rfl, rfl⟩))
        unfold isComparisonOp
        simp only [Bool.or_eq_true, beq_iff_eq] at hcompare ⊢
        tauto
      split at h
      · rename_i hlogical
        split at h
        · cases h
        · rename_i hbool
          cases h
          refine .inr (.inr (.inr ⟨by simpa using hlogical, ?_⟩))
          simpa using hbool
      · cases h

end Binary

/-! ### Operands of a type -/

/-- A value of each type. -/
def Operand.ofType : VarType → Operand
  | .typeString => .value (.string [])
  | .typeInt => .value (.int 0)
  | .typeBool => .value (.bool false)
  | .typeFloat => .float ⟨0⟩
  | .typeDouble => .value (.double ⟨0⟩)
  | .typeArray => .value (.array 0)
  | .typeDict => .value (.dict 0)
  | .typeOptional => .value (.optional 0)
  | .typeStruct => .value (.struct 0)
  | .typeClass => .value (.class 0)
  | .typeNil => .value .nil

theorem Operand.type_ofType (t : VarType) : (Operand.ofType t).type = t := by
  cases t <;> rfl

namespace Operand

variable {v : Operand}

theorem eq_int (h : v.type = .typeInt) : ∃ n, v = .value (.int n) := by
  cases v with
  | float f => cases h
  | value v => cases v <;> first | exact ⟨_, rfl⟩ | cases h

theorem eq_bool (h : v.type = .typeBool) : ∃ b, v = .value (.bool b) := by
  cases v with
  | float f => cases h
  | value v => cases v <;> first | exact ⟨_, rfl⟩ | cases h

theorem eq_string (h : v.type = .typeString) : ∃ s, v = .value (.string s) := by
  cases v with
  | float f => cases h
  | value v => cases v <;> first | exact ⟨_, rfl⟩ | cases h

/-- A number that is no integer. -/
theorem asDouble_of_type (ops : DoubleOps) (floatOps : FloatOps)
    (h : v.type = .typeDouble ∨ v.type = .typeFloat) :
    (∃ d, v.asDouble ops floatOps = some d) ∧ ∀ n, v ≠ .value (.int n) := by
  cases v with
  | float f => exact ⟨⟨_, rfl⟩, fun _ => Operand.noConfusion⟩
  | value v =>
      cases v with
      | double d => exact ⟨⟨d, rfl⟩, fun n hn => by cases hn⟩
      | _ => rcases h with h | h <;> cases h

end Operand

/-! ### Arithmetic -/

section Arithmetic

variable (ops : DoubleOps) (floatOps : FloatOps)

theorem type_intArithmetic {op : Char} (hop : op = '-' ∨ op = '*' ∨ op = '/' ∨ op = '%')
    {a b : BreadInt} {v : BreadValue} (h : breadIntArithmetic op a b = .ok v) :
    v.type = .typeInt := by
  have hbind : ∀ m : Exec BreadInt, (do return BreadValue.int (← m)) = Except.ok v →
      v.type = .typeInt := by
    intro m hm
    cases m with
    | error e => cases hm
    | ok n =>
        cases hm
        rfl
  unfold breadIntArithmetic at h
  split at h
  · cases h
  rcases hop with rfl | rfl | rfl | rfl
  · exact hbind _ h
  · exact hbind _ h
  · exact hbind _ h
  · exact hbind _ h

theorem type_doubleArithmetic {op : Char} (hop : op = '-' ∨ op = '*' ∨ op = '/')
    {a b : DoubleBits} {v : BreadValue} (h : breadDoubleArithmetic ops op a b = .ok v) :
    v.type = .typeDouble := by
  unfold breadDoubleArithmetic at h
  split at h
  · cases h
  rcases hop with rfl | rfl | rfl <;> cases h <;> rfl

/-- Two numbers of one type that is not `Int`. -/
theorem binaryOperator_doubles (op : Char) {l r : Operand} {a b : DoubleBits}
    (hl : l.asDouble ops floatOps = some a) (hr : r.asDouble ops floatOps = some b)
    (hl' : ∀ n, l ≠ .value (.int n)) :
    addOperator ops floatOps l r = succeed (.double (ops.add a b)) ∧
      arithmeticOperator ops floatOps op l r =
        if op == '%' then
          typeMismatch "Modulo operation not supported for floating point numbers"
        else breadDoubleArithmetic ops op a b >>= succeed := by
  have hnumber : ∀ {v : BreadValue} {d : DoubleBits}, v.asDouble ops = some d →
      (∃ n, v = .int n) ∨ v = .double d := by
    intro v d h
    cases v with
    | int n => exact .inl ⟨n, rfl⟩
    | double d' =>
        cases h
        exact .inr rfl
    | _ => cases h
  have hleft : (∃ f, l = .float f ∧ floatOps.toDouble f = a) ∨ l = .value (.double a) := by
    cases l with
    | float f => exact .inl ⟨f, rfl, Option.some.inj hl⟩
    | value v =>
        rcases hnumber hl with ⟨n, rfl⟩ | rfl
        · exact absurd rfl (hl' n)
        · exact .inr rfl
  have hright : (∃ f, r = .float f ∧ floatOps.toDouble f = b) ∨
      (∃ n, r = .value (.int n) ∧ ops.ofInt n = b) ∨ r = .value (.double b) := by
    cases r with
    | float f => exact .inl ⟨f, rfl, Option.some.inj hr⟩
    | value v =>
        rcases hnumber hr with ⟨n, rfl⟩ | rfl
        · exact .inr (.inl ⟨n, rfl, Option.some.inj hr⟩)
        · exact .inr (.inr rfl)
  rcases hleft with ⟨f, rfl, rfl⟩ | rfl <;>
    rcases hright with ⟨g, rfl, rfl⟩ | ⟨n, rfl, rfl⟩ | rfl <;> exact ⟨rfl, rfl⟩

/-- A number that is no integer has a value as a double. -/
theorem baseType_numeric {d : TypeDescriptor} (h : isNumeric d = true)
    (hint : d.baseType ≠ .typeInt) : d.baseType = .typeDouble ∨ d.baseType = .typeFloat := by
  unfold isNumeric at h
  simp only [Bool.or_eq_true, beq_iff_eq] at h
  rcases h with (h | h) | h
  · exact absurd h hint
  · exact .inl h
  · exact .inr h

theorem isArithmeticOp_cases {op : Char} (h : isArithmeticOp op = true) :
    op = '+' ∨ (op ≠ '+' ∧ (op = '-' ∨ op = '*' ∨ op = '/' ∨ op = '%')) := by
  unfold isArithmeticOp at h
  simp only [Bool.or_eq_true, beq_iff_eq] at h
  by_cases hplus : op = '+'
  · exact .inl hplus
  · exact .inr ⟨hplus, by tauto⟩

theorem binaryOperator_add (l r : Operand) :
    binaryOperator ops floatOps '+' l r = addOperator ops floatOps l r := rfl

theorem binaryOperator_arithmetic {op : Char} (hop : op = '-' ∨ op = '*' ∨ op = '/' ∨ op = '%')
    (l r : Operand) :
    binaryOperator ops floatOps op l r = arithmeticOperator ops floatOps op l r := by
  rcases hop with rfl | rfl | rfl | rfl <;> rfl

/-- **Arithmetic on two integers.** -/
theorem soundResult_ints {op : Char} (hop : isArithmeticOp op = true) {l r : Operand}
    (hl : l.type = .typeInt) (hr : r.type = .typeInt) :
    SoundResult .typeInt (binaryOperator ops floatOps op l r) := by
  obtain ⟨a, rfl⟩ := Operand.eq_int hl
  obtain ⟨b, rfl⟩ := Operand.eq_int hr
  rcases isArithmeticOp_cases hop with rfl | ⟨-, hop⟩
  · exact soundResult_bind (f := BreadValue.int) fun _ _ => rfl
  · rw [binaryOperator_arithmetic ops floatOps hop]
    exact soundResult_bind (f := id) fun v hv => type_intArithmetic hop hv

/-- **Arithmetic on two numbers of one type that is not `Int`.** -/
theorem soundResult_doubles {op : Char} (hop : isArithmeticOp op = true) (hmodulo : op ≠ '%')
    {l r : Operand} (hl : l.type = .typeDouble ∨ l.type = .typeFloat)
    (hr : r.type = .typeDouble ∨ r.type = .typeFloat) :
    SoundResult .typeDouble (binaryOperator ops floatOps op l r) := by
  obtain ⟨⟨a, ha⟩, hl'⟩ := Operand.asDouble_of_type ops floatOps hl
  obtain ⟨⟨b, hb⟩, -⟩ := Operand.asDouble_of_type ops floatOps hr
  obtain ⟨hadd, harith⟩ := binaryOperator_doubles ops floatOps op ha hb hl'
  rcases isArithmeticOp_cases hop with rfl | ⟨-, hop⟩
  · rw [binaryOperator_add, hadd]
    exact soundResult_succeed rfl
  · rw [binaryOperator_arithmetic ops floatOps hop, harith, if_neg (by simpa using hmodulo)]
    exact soundResult_bind (f := id) fun v hv =>
      type_doubleArithmetic ops (by tauto) hv

/-- The runtime has no `%` on them. -/
theorem not_soundResult_modulo {l r : Operand} {t : VarType}
    (hl : l.type = .typeDouble ∨ l.type = .typeFloat)
    (hr : r.type = .typeDouble ∨ r.type = .typeFloat) :
    ¬ SoundResult t (binaryOperator ops floatOps '%' l r) := by
  obtain ⟨⟨a, ha⟩, hl'⟩ := Operand.asDouble_of_type ops floatOps hl
  obtain ⟨⟨b, hb⟩, -⟩ := Operand.asDouble_of_type ops floatOps hr
  rw [binaryOperator_arithmetic ops floatOps (.inr (.inr (.inr rfl))),
    (binaryOperator_doubles ops floatOps '%' ha hb hl').2]
  exact not_soundResult_typeMismatch t _

/-! ### Comparisons -/

theorem binaryOperator_compare {op : Char} (hop : isComparisonOp op = true) (l r : Operand) :
    binaryOperator ops floatOps op l r = compareOperator ops floatOps op l r := by
  unfold isComparisonOp at hop
  simp only [Bool.or_eq_true, beq_iff_eq] at hop
  rcases hop with ((((rfl | rfl) | rfl) | rfl) | rfl) | rfl <;> rfl

theorem compareOrdering_isSome {op : Char} (hop : isComparisonOp op = true) (o : Ordering) :
    ∃ b, compareOrdering op o = some b := by
  unfold isComparisonOp at hop
  simp only [Bool.or_eq_true, beq_iff_eq] at hop
  rcases hop with ((((rfl | rfl) | rfl) | rfl) | rfl) | rfl <;> exact ⟨_, rfl⟩

theorem compareDoubles_isSome {op : Char} (hop : isComparisonOp op = true) (a b : DoubleBits) :
    ∃ c, compareDoubles ops op a b = some c := by
  unfold isComparisonOp at hop
  simp only [Bool.or_eq_true, beq_iff_eq] at hop
  rcases hop with ((((rfl | rfl) | rfl) | rfl) | rfl) | rfl <;> exact ⟨_, rfl⟩

theorem compareFloats_isSome {op : Char} (hop : isComparisonOp op = true) (a b : FloatBits) :
    ∃ c, compareFloats floatOps op a b = some c := by
  unfold isComparisonOp at hop
  simp only [Bool.or_eq_true, beq_iff_eq] at hop
  rcases hop with ((((rfl | rfl) | rfl) | rfl) | rfl) | rfl <;> exact ⟨_, rfl⟩

theorem compareRefs_isSome {op : Char} (hop : op = '=' ∨ op = '!') (a b : Ref) :
    ∃ c, compareRefs op a b = some c := by
  rcases hop with rfl | rfl <;> exact ⟨_, rfl⟩

/-- Two values of one type that can be compared. -/
theorem compareOperands_isSome {op : Char} (hop : isComparisonOp op = true) {l r : Operand}
    (htype : l.type = r.type) (hnil : l.type ≠ .typeNil)
    (hcomplex : l.type.isComplex = true → op = '=' ∨ op = '!') :
    ∃ b, compareOperands ops floatOps op l r = some b := by
  cases l with
  | float f =>
      cases r with
      | float g => exact compareFloats_isSome floatOps hop f g
      | value w => cases w <;> cases htype
  | value v =>
      cases r with
      | float g => cases v <;> cases htype
      | value w =>
          cases v with
          | nil => exact absurd rfl hnil
          | string s => cases w <;> first | exact compareOrdering_isSome hop _ | cases htype
          | int n => cases w <;> first | exact compareOrdering_isSome hop _ | cases htype
          | bool b => cases w <;> first | exact compareOrdering_isSome hop _ | cases htype
          | double d => cases w <;> first | exact compareDoubles_isSome ops hop _ _ | cases htype
          | _ => cases w <;> first | exact compareRefs_isSome (hcomplex rfl) _ _ | cases htype

/-- **The comparisons that are sound.** -/
theorem soundResult_compare_iff {op : Char} (hop : isComparisonOp op = true) (l r : Operand) :
    SoundResult .typeBool (binaryOperator ops floatOps op l r) ↔
      l.type = r.type ∧ l.type ≠ .typeNil ∧ (l.type.isComplex = true → op = '=' ∨ op = '!') := by
  rw [binaryOperator_compare ops floatOps hop]
  unfold compareOperator
  by_cases htype : l.type = r.type
  · rw [if_neg (by simpa using htype)]
    by_cases hnil : l.type = .typeNil
    · rw [if_pos (by simpa using hnil)]
      exact iff_of_false (not_soundResult_typeMismatch _ _) fun h => h.2.1 hnil
    · rw [if_neg (by simpa using hnil)]
      by_cases hcomplex : l.type.isComplex = true → op = '=' ∨ op = '!'
      · rw [if_neg]
        · obtain ⟨b, hb⟩ := compareOperands_isSome ops floatOps hop htype hnil hcomplex
          rw [hb]
          exact iff_of_true (soundResult_succeed rfl) ⟨htype, hnil, hcomplex⟩
        · simp only [Bool.and_eq_true, bne_iff_ne]
          tauto
      · rw [if_pos]
        · exact iff_of_false (not_soundResult_typeMismatch _ _) fun h => hcomplex h.2.2
        · simp only [Bool.and_eq_true, bne_iff_ne]
          tauto
  · rw [if_pos (by simpa using htype)]
    exact iff_of_false (not_soundResult_typeMismatch _ _) fun h => htype h.1

end Arithmetic

/-! ### The two tables -/

section Tables

variable (ops : DoubleOps) (floatOps : FloatOps)

/-- **An operator is sound at given types**: on all operands of these types it does what its
type promises. -/
def BinarySound (op : Char) (left right type : TypeDescriptor) : Prop :=
  ∀ l r : Operand, l.type = left.baseType → r.type = right.baseType →
    SoundResult type.baseType (binaryOperator ops floatOps op l r)

variable {ops floatOps} {op : Char} {left right type : TypeDescriptor}

theorem isComparisonOp_of_arithmetic (h : isArithmeticOp op = true) : isComparisonOp op = false := by
  rcases isArithmeticOp_cases h with rfl | ⟨-, rfl | rfl | rfl | rfl⟩ <;> rfl

theorem operatorMeets_of_not_comparison (hcompare : isComparisonOp op = false)
    (hmodulo : op = '%' → left.baseType = .typeInt) : OperatorMeets op left right :=
  have hfalse : isComparisonOp op ≠ true := by
    rw [hcompare]
    exact Bool.false_ne_true
  ⟨hmodulo, fun h => absurd h hfalse, fun h => absurd h hfalse, fun h => absurd h hfalse⟩

/-- **An operator that has a type is sound if and only if it is one of those on which the two
tables agree.** -/
theorem binarySound_iff (h : binaryTypeDesc op left right = .ok type) :
    BinarySound ops floatOps op left right type ↔ OperatorMeets op left right := by
  rcases binaryTypeDesc_cases h with ⟨rfl, hleft, hright, rfl⟩ |
    ⟨harith, hbase, hnumeric, htype⟩ | ⟨hcompare, harith, rfl⟩ | ⟨hlogical, hleft, hright, rfl⟩
  · -- two strings are concatenated
    refine iff_of_true (fun l r hl hr => ?_) (operatorMeets_of_not_comparison rfl fun h => by cases h)
    obtain ⟨s, rfl⟩ := Operand.eq_string (hl.trans hleft)
    obtain ⟨t, rfl⟩ := Operand.eq_string (hr.trans hright)
    exact soundResult_succeed hleft.symm
  · have hcompare := isComparisonOp_of_arithmetic harith
    by_cases hint : left.baseType = .typeInt
    · rw [if_pos hint] at htype
      refine iff_of_true (fun l r hl hr => ?_) (operatorMeets_of_not_comparison hcompare fun _ => hint)
      rw [htype]
      exact soundResult_ints ops floatOps harith (hl.trans hint) (hr.trans (hbase ▸ hint))
    · rw [if_neg hint] at htype
      have hdouble := baseType_numeric hnumeric hint
      by_cases hmodulo : op = '%'
      · subst hmodulo
        refine iff_of_false (fun hsound => ?_) fun hmeets => hint (hmeets.modulo rfl)
        exact not_soundResult_modulo ops floatOps
          (by rwa [Operand.type_ofType]) (by rwa [Operand.type_ofType, ← hbase])
          (hsound (.ofType left.baseType) (.ofType right.baseType) (Operand.type_ofType _)
            (Operand.type_ofType _))
      · refine iff_of_true (fun l r hl hr => ?_)
          (operatorMeets_of_not_comparison hcompare fun h => absurd h hmodulo)
        rw [htype]
        exact soundResult_doubles ops floatOps harith hmodulo (by rwa [hl]) (by rwa [hr, ← hbase])
  · constructor
    · intro hsound
      have hcase := (soundResult_compare_iff ops floatOps hcompare _ _).mp
        (hsound (.ofType left.baseType) (.ofType right.baseType) (Operand.type_ofType _)
          (Operand.type_ofType _))
      rw [Operand.type_ofType, Operand.type_ofType] at hcase
      refine ⟨fun hmodulo => ?_, fun _ => hcase.1, fun _ => hcase.2.1, fun _ => hcase.2.2⟩
      rw [hmodulo] at harith
      cases harith
    · intro hmeets l r hl hr
      refine (soundResult_compare_iff ops floatOps hcompare l r).mpr ?_
      rw [hl, hr]
      exact ⟨hmeets.sameType hcompare, hmeets.comparable hcompare, hmeets.equality hcompare⟩
  · have hcompare : isComparisonOp op = false ∧ op ≠ '%' := by
      rcases hlogical with rfl | rfl <;> exact ⟨rfl, by decide⟩
    refine iff_of_true (fun l r hl hr => ?_)
      (operatorMeets_of_not_comparison hcompare.1 fun h => absurd h hcompare.2)
    obtain ⟨a, rfl⟩ := Operand.eq_bool (hl.trans hleft)
    obtain ⟨b, rfl⟩ := Operand.eq_bool (hr.trans hright)
    rcases hlogical with rfl | rfl <;> exact soundResult_succeed rfl

/-- **A unary operator that has a type is sound.** -/
theorem unarySound {operand : TypeDescriptor} (h : unaryTypeDesc op operand = .ok type) (v : Operand)
    (hv : v.type = operand.baseType) :
    SoundResult type.baseType (unaryOperator ops floatOps op v) := by
  unfold unaryTypeDesc at h
  split at h
  · rename_i hminus
    obtain rfl : op = '-' := by simpa using hminus
    split at h
    · cases h
    rename_i hnumeric
    have hnumeric : isNumeric operand = true := by simpa using hnumeric
    split at h
    · rename_i hint
      have hint : operand.baseType = .typeInt := by simpa using hint
      cases h
      rw [hint]
      exact soundResult_ints ops floatOps (show isArithmeticOp '-' = true from rfl)
        (show Operand.type (.value (.int 0)) = .typeInt from rfl) (hv.trans hint)
    · rename_i hint
      cases h
      have hdouble := baseType_numeric hnumeric (by simpa using hint)
      cases v with
      | float f => exact soundResult_succeed rfl
      | value v =>
          cases v with
          | double d => exact soundResult_succeed rfl
          | _ => rcases hdouble with h | h <;> rw [h] at hv <;> cases hv
  · split at h
    · rename_i hnot
      obtain rfl : op = '!' := by simpa using hnot
      split at h
      · cases h
      rename_i hbool
      cases h
      obtain ⟨b, rfl⟩ := Operand.eq_bool (hv.trans (by simpa using hbool))
      exact soundResult_succeed rfl
    · cases h

end Tables

/-! ### Expressions -/

/-- The operator expressions: literals and variables, and operators on them. -/
def ASTExpr.IsOperatorExpr : ASTExpr → Prop
  | .nil | .bool _ | .int _ | .double _ | .string _ | .stringLiteral _ | .var _ => True
  | .binary _ left right => left.IsOperatorExpr ∧ right.IsOperatorExpr
  | .unary _ operand => operand.IsOperatorExpr
  | _ => False

section Expressions

variable (ops : DoubleOps) (floatOps : FloatOps) (vars : Ident → Operand) (cg : Cg)

/-- The value of an operator expression by the functions of the runtime, and the errors that
are recorded on the way. -/
def operate : ASTExpr → Exec (Operand × List BreadError)
  | .bool b => .ok (.value (.bool b), [])
  | .int n => .ok (.value (.int n), [])
  | .double d => .ok (.value (.double d), [])
  | .string s | .stringLiteral s => .ok (.value (.string s), [])
  | .var name => .ok (vars name, [])
  | .binary op left right => do
      let l ← operate left
      let r ← operate right
      let v ← binaryOperator ops floatOps op l.1 r.1
      return (v.1, l.2 ++ r.2 ++ v.2.toList)
  | .unary op operand => do
      let x ← operate operand
      let v ← unaryOperator ops floatOps op x.1
      return (v.1, x.2 ++ v.2.toList)
  | _ => .ok (.value .nil, [])

/-- The variables hold values of their declared types. -/
def VarsTyped : Prop :=
  ∀ name type, cg.inferTypeDesc (.var name) = .ok type → (vars name).type = type.baseType

/-- **The operator at the root of an expression is sound at the types of its operands.** -/
def RootSound : ASTExpr → Prop
  | .binary op left right => ∀ l r type, cg.inferTypeDesc left = .ok l →
      cg.inferTypeDesc right = .ok r → binaryTypeDesc op l r = .ok type →
        BinarySound ops floatOps op l r type
  | .unary op operand => ∀ x type, cg.inferTypeDesc operand = .ok x →
      unaryTypeDesc op x = .ok type → ∀ v : Operand, v.type = x.baseType →
        SoundResult type.baseType (unaryOperator ops floatOps op v)
  | _ => True

/-- The operator at the root of an expression is one on which the two tables agree. -/
def RootMeets : ASTExpr → Prop
  | .binary op left right => ∀ l r, cg.inferTypeDesc left = .ok l →
      cg.inferTypeDesc right = .ok r → OperatorMeets op l r
  | _ => True

/-- **Operator typing is sound for an expression** of a type: every operator in it is sound
on all values of the types of its operands; and whatever its variables hold, no evaluation of
it records a type mismatch, and one that records no error has a value of the type. -/
structure OperatorsSound (e : ASTExpr) (type : TypeDescriptor) : Prop where
  operators : e.AllOperands (RootSound ops floatOps cg)
  values : ∀ vars, VarsTyped vars cg → ∀ v errors, operate ops floatOps vars e = .ok (v, errors) →
    (∀ error ∈ errors, error.type ≠ .typeMismatch) ∧ (errors = [] → v.type = type.baseType)

end Expressions

section Soundness

variable {ops : DoubleOps} {floatOps : FloatOps} {vars : Ident → Operand} {cg : Cg}

theorem inferBoth_eq_ok {α β : Type} {x : CgResult α} {y : CgResult β} {a : α} {b : β}
    (h : inferBoth x y = .ok (a, b)) : x = .ok a ∧ y = .ok b := by
  cases x with
  | error e =>
      cases e with
      | failed error =>
          cases y with
          | ok b => cases h
          | error e => cases e <;> cases h
      | _ => cases h
  | ok a =>
      cases y with
      | ok b =>
          cases h
          exact ⟨rfl, rfl⟩
      | error e => cases h

theorem inferTypeDesc_binary {op : Char} {left right : ASTExpr} {type : TypeDescriptor}
    (h : cg.inferTypeDesc (.binary op left right) = .ok type) :
    ∃ l r, cg.inferTypeDesc left = .ok l ∧ cg.inferTypeDesc right = .ok r ∧
      binaryTypeDesc op l r = .ok type := by
  unfold Cg.inferTypeDesc at h
  obtain ⟨⟨l, r⟩, hboth, h⟩ := bind_eq_ok.mp h
  obtain ⟨hl, hr⟩ := inferBoth_eq_ok hboth
  exact ⟨l, r, hl, hr, h⟩

theorem inferTypeDesc_unary {op : Char} {operand : ASTExpr} {type : TypeDescriptor}
    (h : cg.inferTypeDesc (.unary op operand) = .ok type) :
    ∃ x, cg.inferTypeDesc operand = .ok x ∧ unaryTypeDesc op x = .ok type := by
  unfold Cg.inferTypeDesc at h
  exact bind_eq_ok.mp h

/-- The errors that are recorded are type mismatches. -/
def OnlyMismatches (r : Exec Recorded) : Prop :=
  ∀ v e, r = .ok (v, some e) → e.type = .typeMismatch

theorem onlyMismatches_typeMismatch (message : String) : OnlyMismatches (typeMismatch message) := by
  rintro _ _ ⟨⟩
  rfl

theorem onlyMismatches_bind {α : Type} (m : Exec α) (f : α → BreadValue) :
    OnlyMismatches (m >>= fun a => succeed (f a)) := by
  intro v e h
  cases m <;> cases h

theorem onlyMismatches_add (l r : Operand) : OnlyMismatches (addOperator ops floatOps l r) := by
  unfold addOperator
  split
  · exact onlyMismatches_bind (.ok ()) fun _ => _
  · exact onlyMismatches_bind _ BreadValue.int
  · split
    · exact onlyMismatches_typeMismatch _
    · split
      · exact onlyMismatches_bind (.ok ()) fun _ => _
      · exact onlyMismatches_typeMismatch _

theorem onlyMismatches_arithmetic (op : Char) (l r : Operand) :
    OnlyMismatches (arithmeticOperator ops floatOps op l r) := by
  unfold arithmeticOperator
  split
  · exact onlyMismatches_bind _ id
  · split
    · split
      · exact onlyMismatches_typeMismatch _
      · exact onlyMismatches_bind _ id
    · exact onlyMismatches_typeMismatch _

theorem onlyMismatches_compare (op : Char) (l r : Operand) :
    OnlyMismatches (compareOperator ops floatOps op l r) := by
  unfold compareOperator
  split
  · exact onlyMismatches_typeMismatch _
  split
  · exact onlyMismatches_typeMismatch _
  split
  · exact onlyMismatches_typeMismatch _
  · intro v e h
    cases hc : compareOperands ops floatOps op l r <;> rw [hc] at h <;> cases h

theorem onlyMismatches_binary (op : Char) (l r : Operand) :
    OnlyMismatches (binaryOperator ops floatOps op l r) := by
  unfold binaryOperator
  split
  · exact onlyMismatches_add l r
  split
  · exact onlyMismatches_arithmetic op l r
  split
  · exact onlyMismatches_compare op l r
  split
  · unfold logicalOperator
    split
    · exact onlyMismatches_bind (.ok ()) fun _ => _
    · exact onlyMismatches_typeMismatch _
  · exact fun _ _ h => by cases h

theorem onlyMismatches_unary (op : Char) (x : Operand) :
    OnlyMismatches (unaryOperator ops floatOps op x) := by
  unfold unaryOperator
  split
  · unfold notOperator
    split
    · exact onlyMismatches_bind (.ok ()) fun _ => _
    · exact onlyMismatches_typeMismatch _
  · exact onlyMismatches_binary '-' _ x

/-- So an operator that is sound records no error. -/
theorem SoundResult.eq_none {t : VarType} {r : Exec Recorded} (h : SoundResult t r)
    (hr : OnlyMismatches r) {v : Operand} {e : Option BreadError} (hv : r = .ok (v, e)) :
    e = none ∧ v.type = t := by
  obtain ⟨hmismatch, htype⟩ := h v e hv
  cases e with
  | none => exact ⟨rfl, htype rfl⟩
  | some e => exact absurd (hr v e hv) (hmismatch e rfl)

/-- **The values of an expression whose operators are all sound**, by induction on it. -/
theorem operate_sound (hvars : VarsTyped vars cg) : ∀ (e : ASTExpr) {type : TypeDescriptor},
    e.IsOperatorExpr → cg.inferTypeDesc e = .ok type → e.AllOperands (RootSound ops floatOps cg) →
      ∀ v errors, operate ops floatOps vars e = .ok (v, errors) →
        errors = [] ∧ v.type = type.baseType
  | .binary op left right, type, he, htype, hall, v, errors, hv => by
      obtain ⟨l, r, hl, hr, hop⟩ := inferTypeDesc_binary htype
      unfold operate at hv
      obtain ⟨⟨a, es⟩, ha, hv⟩ := bind_eq_ok.mp hv
      obtain ⟨⟨b, es'⟩, hb, hv⟩ := bind_eq_ok.mp hv
      obtain ⟨⟨c, e⟩, hc, hv⟩ := bind_eq_ok.mp hv
      cases hv
      obtain ⟨rfl, hatype⟩ := operate_sound hvars left he.1 hl hall.2.1 a es ha
      obtain ⟨rfl, hbtype⟩ := operate_sound hvars right he.2 hr hall.2.2 b es' hb
      obtain ⟨rfl, hctype⟩ :=
        (hall.1 l r type hl hr hop a b hatype hbtype).eq_none (onlyMismatches_binary op a b) hc
      exact ⟨rfl, hctype⟩
  | .unary op operand, type, he, htype, hall, v, errors, hv => by
      obtain ⟨x, hx, hop⟩ := inferTypeDesc_unary htype
      unfold operate at hv
      obtain ⟨⟨a, es⟩, ha, hv⟩ := bind_eq_ok.mp hv
      obtain ⟨⟨c, e⟩, hc, hv⟩ := bind_eq_ok.mp hv
      cases hv
      obtain ⟨rfl, hatype⟩ := operate_sound hvars operand he hx hall.2 a es ha
      obtain ⟨rfl, hctype⟩ :=
        (hall.1 x type hx hop a hatype).eq_none (onlyMismatches_unary op a) hc
      exact ⟨rfl, hctype⟩
  | .var name, type, _, htype, _, v, errors, hv => by
      cases hv
      exact ⟨rfl, hvars name type htype⟩
  | .nil, _, _, htype, _, _, _, hv | .bool _, _, _, htype, _, _, _, hv
  | .int _, _, _, htype, _, _, _, hv | .double _, _, _, htype, _, _, _, hv
  | .string _, _, _, htype, _, _, _, hv | .stringLiteral _, _, _, htype, _, _, _, hv => by
      cases hv
      cases htype
      exact ⟨rfl, rfl⟩
  | .null, _, he, _, _, _, _, _ | .self, _, he, _, _, _, _, _ | .super, _, he, _, _, _, _, _
  | .call _ _, _, he, _, _, _, _, _ | .array _, _, he, _, _, _, _, _ | .dict _, _, he, _, _, _, _, _
  | .index _ _, _, he, _, _, _, _, _ | .member _ _ _, _, he, _, _, _, _, _
  | .methodCall _ _ _ _, _, he, _, _, _, _, _ | .arrayLiteral _, _, he, _, _, _, _, _
  | .structLiteral _ _, _, he, _, _, _, _, _ | .classLiteral _ _, _, he, _, _, _, _, _ => he.elim

variable (ops floatOps) in
theorem allOperands_sound_iff : ∀ (e : ASTExpr) {type : TypeDescriptor}, e.IsOperatorExpr →
    cg.inferTypeDesc e = .ok type →
      (e.AllOperands (RootSound ops floatOps cg) ↔ e.AllOperands (RootMeets cg))
  | .binary op left right, type, he, htype => by
      obtain ⟨l, r, hl, hr, hop⟩ := inferTypeDesc_binary htype
      have hroot : RootSound ops floatOps cg (.binary op left right) ↔
          RootMeets cg (.binary op left right) := by
        constructor
        · intro hsound l' r' hl' hr'
          cases hl.symm.trans hl'
          cases hr.symm.trans hr'
          exact (binarySound_iff hop).mp (hsound l r type hl hr hop)
        · intro hmeets l' r' type' hl' hr' hop'
          exact (binarySound_iff hop').mpr (hmeets l' r' hl' hr')
      exact and_congr hroot (and_congr (allOperands_sound_iff left he.1 hl)
        (allOperands_sound_iff right he.2 hr))
  | .unary op operand, type, he, htype => by
      obtain ⟨x, hx, hop⟩ := inferTypeDesc_unary htype
      refine and_congr (iff_of_true ?_ trivial) (allOperands_sound_iff operand he hx)
      exact fun x' type' _ hop' v hv => unarySound hop' v hv
  | .var _, _, _, _ | .nil, _, _, _ | .bool _, _, _, _ | .int _, _, _, _ | .double _, _, _, _
  | .string _, _, _, _ | .stringLiteral _, _, _, _ => Iff.rfl
  | .null, _, he, _ | .self, _, he, _ | .super, _, he, _ | .call _ _, _, he, _
  | .array _, _, he, _ | .dict _, _, he, _ | .index _ _, _, he, _ | .member _ _ _, _, he, _
  | .methodCall _ _ _ _, _, he, _ | .arrayLiteral _, _, he, _ | .structLiteral _ _, _, he, _
  | .classLiteral _ _, _, he, _ => he.elim

/-- **Operator typing is sound for an expression if and only if the two tables agree on each of
its operators.** -/
theorem operatorsSound_iff (ops : DoubleOps) (floatOps : FloatOps) {e : ASTExpr}
    {type : TypeDescriptor} (he : e.IsOperatorExpr) (htype : cg.inferTypeDesc e = .ok type) :
    OperatorsSound ops floatOps cg e type ↔ e.AllOperands (RootMeets cg) := by
  rw [← allOperands_sound_iff ops floatOps e he htype]
  refine ⟨fun h => h.operators, fun h => ⟨h, fun vars hvars v errors hv => ?_⟩⟩
  obtain ⟨rfl, hvtype⟩ := operate_sound hvars e he htype h v errors hv
  exact ⟨fun _ hmem => absurd hmem List.not_mem_nil, fun _ => hvtype⟩

end Soundness

/-! ### An optional and nil -/

/-- Operations on numbers, for runs in which none is computed. -/
def noFloats : FloatOps := ⟨fun _ => ⟨0⟩, fun _ _ => false, fun _ _ => false⟩

/-- `1 + 2 < 3`. -/
def sumBelow : ASTExpr :=
  .binary '<' (.binary '+' (.int 1) (.int 2)) (.int 3)

/-- Integers are added and compared. -/
theorem sumBelow_sound : OperatorsSound noDoubles noFloats Cg.init sumBelow .bool := by
  have htree : sumBelow.IsOperatorExpr := ⟨⟨trivial, trivial⟩, trivial⟩
  refine (operatorsSound_iff noDoubles noFloats htree rfl).mpr
    ⟨fun l r hl hr => ?_, ⟨fun l r hl hr => ?_, trivial, trivial⟩, trivial⟩
  · cases hl
    cases hr
    exact ⟨fun h => (by cases h), fun _ => rfl, fun _ => (by decide), fun _ h => (by cases h)⟩
  · cases hl
    cases hr
    exact ⟨fun h => (by cases h), fun h => (by cases h), fun h => (by cases h),
      fun h => (by cases h)⟩

/-- The scope of `let value: Int? = 42`. -/
def optionalDeclared : Cg :=
  { Cg.init with globalVars :=
      [⟨"value".toList, .unset, .typeOptional, some (.optional .int), none, false, 0⟩] }

/-- `value != nil`. -/
def valueIsPresent : ASTExpr :=
  .binary '!' (.var "value".toList) .nil

/-- The comparison of an optional with nil has type `Bool`, and the runtime refuses it. -/
theorem optional_is_not_compared_with_nil :
    valueIsPresent.IsOperatorExpr ∧ optionalDeclared.inferTypeDesc valueIsPresent = .ok .bool ∧
      ¬ OperatorsSound noDoubles noFloats optionalDeclared valueIsPresent .bool := by
  refine ⟨⟨trivial, trivial⟩, rfl, fun hsound => ?_⟩
  have hvars : VarsTyped (fun _ => .value (.optional 0)) optionalDeclared := by
    intro name type htype
    change orNull ((optionalDeclared.findVarInScope name).bind CgVar.typeDesc) = .ok type at htype
    by_cases hname : name = "value".toList
    · subst hname
      cases htype
      rfl
    · have hfind : optionalDeclared.findVarInScope name = none := by
        have hne : ("value".toList == name) = false := beq_false_of_ne (Ne.symm hname)
        unfold Cg.findVarInScope
        rw [List.find?_eq_none]
        intro v hv
        rw [List.mem_singleton.mp hv, hne, Bool.false_and]
        exact Bool.false_ne_true
      rw [hfind] at htype
      cases htype
  have hrun : operate noDoubles noFloats (fun _ => .value (.optional 0)) valueIsPresent =
      .ok (.value .nil, [⟨.typeMismatch, "Cannot compare different types"⟩]) := rfl
  exact (hsound.values _ hvars _ _ hrun).1 _ List.mem_cons_self rfl

end BreadLang
