import BreadLang.Codegen.Stmt
import Mathlib.Logic.Relation

/-!
# What the code generator does to its state

Building an expression, a statement or a whole module changes the state in a
dozen ways only, the steps of `CgStep`.  Each step says under which condition it
is taken, so a property of every run of the generator is a property of every
sequence of steps, and has a proof by cases on one step.

`buildModule_reaches` is the theorem; the lemmas before it go through the
functions of the generator one by one.
-/

namespace BreadLang

open Lower Stateful

/-- Where an assignment of a name stores: into the slot of a local variable; into
a new slot, for a plain assignment in a function to a name that is not local; or
into the variable of that name at run time. -/
inductive AssignsTo (cg : Cg) (fn : Option CgCallee) (name : Ident) :
    Option Char → Location → Prop where
  | localSlot {op : Option Char} (var : CgVar) (h : localVar cg fn name = some var) :
      AssignsTo cg fn name op (.slot var.alloca)
  | newSlot (slot : StackSlot) (hfn : fn.isSome) (h : localVar cg fn name = none) :
      AssignsTo cg fn name none (.slot slot)
  | runtimeVar {op : Option Char} (hfn : fn = none ∨ op.isSome)
      (h : localVar cg fn name = none) : AssignsTo cg fn name op (.global name)

/-- One step of the code generator. -/
inductive CgStep : Cg → Cg → Prop where
  | slot (cg : Cg) : CgStep cg { cg with nextSlot := cg.nextSlot + 1 }
  | scope (cg : Cg) (scope : List CgVar) : CgStep cg { cg with scope := scope }
  | loop (cg : Cg) (inLoop loopHasScope : Bool) :
      CgStep cg { cg with inLoop := inLoop, loopHasScope := loopHasScope }
  | number (cg : Cg) : CgStep cg { cg with nextFunction := cg.nextFunction + 1 }
  | function (cg : Cg) (entry : CgFunction) (h : entry.fn.isSome) :
      CgStep cg { cg with
        functions := entry :: cg.functions
        trace := .functionAdded entry.name :: cg.trace }
  | call (cg : Cg) (name : Ident) (callee : CgFunction)
      (h : cg.findFunction name = some callee) :
      CgStep cg { cg with trace := .functionCalled callee :: cg.trace }
  | assign (cg : Cg) (fn : Option CgCallee) (name : Ident) (op : Option Char)
      (target : Location) (h : AssignsTo cg fn name op target) :
      CgStep cg { cg with
        trace := .variableAssigned fn cg.scope cg.classes name op target :: cg.trace }
  | methodCall (cg : Cg) (varName name : Ident) (argCount : ℕ) :
      CgStep cg { cg with
        trace := .methodCalled varName name argCount (directMethod cg (.var varName) name)
          :: cg.trace }
  | constructor (cg : Cg) (name : Ident) (fn : LLVMFunction) :
      CgStep cg { cg with
        classes := cg.classes.map fun c =>
          if c.name == name then { c with constructorFunction := some fn } else c }
  | method (cg : Cg) (name : Ident) (index : ℕ) (fn : LLVMFunction) :
      CgStep cg { cg with
        classes := cg.classes.map fun c =>
          if c.name == name then
            { c with methodFunctions := c.methodFunctions.set index (some fn) }
          else c }
  | body (cg : Cg) (body : CodeBody) : CgStep cg { cg with module := body :: cg.module }

/-- The states that the generator can get to from a state. -/
abbrev Reaches : Cg → Cg → Prop :=
  Relation.ReflTransGen CgStep

/-- An invariant of the steps holds in every state that is reached. -/
theorem Reaches.invariant {I : Cg → Prop} (hstep : ∀ cg cg', CgStep cg cg' → I cg → I cg')
    {cg cg' : Cg} (h : Reaches cg cg') (hI : I cg) : I cg' := by
  induction h with
  | refl => exact hI
  | tail _ hlast ih => exact hstep _ _ hlast ih

theorem CgStep.trace_suffix {cg cg' : Cg} (h : CgStep cg cg') : cg.trace <:+ cg'.trace := by
  cases h with
  | function => exact List.suffix_cons _ _
  | call => exact List.suffix_cons _ _
  | assign => exact List.suffix_cons _ _
  | methodCall => exact List.suffix_cons _ _
  | _ => exact List.suffix_rfl

/-- The generator only adds events. -/
theorem Reaches.trace_suffix {cg cg' : Cg} (h : Reaches cg cg') : cg.trace <:+ cg'.trace := by
  induction h with
  | refl => exact List.suffix_rfl
  | tail _ hlast ih => exact ih.trans hlast.trace_suffix

/-! ### Invariants that events keep -/

/-- An invariant that is kept when a call, a method call or an assignment is
recorded. -/
structure EventInvariant (I : Cg → Prop) : Prop where
  call : ∀ (cg : Cg) (name : Ident) (callee : CgFunction), cg.findFunction name = some callee →
    I cg → I { cg with trace := .functionCalled callee :: cg.trace }
  methodCall : ∀ (cg : Cg) (varName name : Ident) (argCount : ℕ), I cg →
    I { cg with
      trace := .methodCalled varName name argCount (directMethod cg (.var varName) name)
        :: cg.trace }
  assign : ∀ (cg : Cg) (fn : Option CgCallee) (name : Ident) (op : Option Char)
    (target : Location), AssignsTo cg fn name op target → I cg →
    I { cg with
      trace := .variableAssigned fn cg.scope cg.classes name op target :: cg.trace }

/-- The functions of a builder for expressions keep an invariant. -/
structure Builder.KeepsExpr (b : Builder) (I : Cg → Prop) : Prop where
  expr : ∀ fn e, Keeps I (b.expr fn e)
  exprUnboxed : ∀ fn e, Keeps I (b.exprUnboxed fn e)

section Events

variable {I : Cg → Prop} {b : Builder}

/-- A computation that starts by reading the state, when what follows keeps the
invariant from every state. -/
theorem keeps_get_any {α : Type} {f : Cg → Lower α} (h : ∀ cg, Keeps I (f cg)) :
    Keeps I (get >>= f) :=
  keeps_get_bind fun cg hcg => h cg cg hcg

theorem keeps_deref {α : Type} (x : Option α) : Keeps I (deref x) := by
  cases x with
  | none => exact keeps_throw _
  | some a => exact keeps_pure a

theorem keeps_testNull {α : Type} {m : Lower α} (h : Keeps I m) : Keeps I (testNull m) :=
  keeps_attempt h

/-! ### Expressions -/

theorem keeps_buildBoxed (hb : b.KeepsExpr I) (fn : Option CgCallee) (e : ASTExpr) :
    Keeps I (buildBoxed b fn e) :=
  keeps_bind (keeps_testNull (hb.expr fn e)) fun _ => keeps_pure _

theorem keeps_buildBinaryFallback (op : Char) (l r : CgValue) :
    Keeps I (buildBinaryFallback op l r) :=
  keeps_bind (keeps_deref _) fun _ => keeps_bind (keeps_deref _) fun _ => keeps_pure _

theorem keeps_buildBinaryUnboxed (hb : b.KeepsExpr I) (fn : Option CgCallee)
    (left right : ASTExpr) (op : Char) :
    Keeps I (buildBinaryUnboxed b fn left right op) := by
  unfold buildBinaryUnboxed
  refine keeps_bind (hb.exprUnboxed fn left) fun l => ?_
  refine keeps_bind (hb.exprUnboxed fn right) fun r => ?_
  split
  · split
    · exact keeps_pure _
    · exact keeps_buildBinaryFallback op _ _
  · exact keeps_buildBinaryFallback op _ _

theorem keeps_buildUnaryFallback (op : Char) (v : CgValue) :
    Keeps I (buildUnaryFallback op v) := by
  unfold buildUnaryFallback
  refine keeps_bind (keeps_deref _) fun boxed => ?_
  split <;> exact keeps_pure _

theorem keeps_buildUnaryUnboxed (hb : b.KeepsExpr I) (fn : Option CgCallee)
    (operand : ASTExpr) (op : Char) :
    Keeps I (buildUnaryUnboxed b fn operand op) := by
  unfold buildUnaryUnboxed
  refine keeps_bind (hb.exprUnboxed fn operand) fun v => ?_
  split
  · exact keeps_pure _
  · exact keeps_pure _
  · exact keeps_pure _
  · exact keeps_buildUnaryFallback op v

theorem keeps_buildExprUnboxed (hb : b.KeepsExpr I) (fn : Option CgCallee) (e : ASTExpr) :
    Keeps I (buildExprUnboxed b fn e) := by
  unfold buildExprUnboxed
  split
  · exact keeps_pure _
  · split
    · exact keeps_buildBoxed hb fn e
    · split
      · exact keeps_pure _
      · exact keeps_pure _
      · exact keeps_pure _
      · refine keeps_get_any fun cg => ?_
        split
        · exact keeps_pure _
        · exact keeps_buildBoxed hb fn _
      · exact keeps_buildBinaryUnboxed hb fn _ _ _
      · exact keeps_buildUnaryUnboxed hb fn _ _
      · exact keeps_buildBoxed hb fn _

/-- Building the values of a list of expressions. -/
theorem keeps_exprs (hb : b.KeepsExpr I) (fn : Option CgCallee) (es : List ASTExpr) :
    Keeps I (es.mapM (b.expr fn)) :=
  keeps_mapM (hb.expr fn) es

/-- What follows the resolution of a call, which records the entry. -/
theorem keeps_buildFunctionCall (hI : EventInvariant I) (hb : b.KeepsExpr I) (fn : Option CgCallee) {cg : Cg}
    {name : Ident} {callee : CgFunction} (h : cg.findFunction name = some callee)
    (args : List ASTExpr) (hcg : I cg) :
    I ((buildFunctionCall b fn callee args).final cg) := by
  have hrest : Keeps I (do
      let values ← (callArgs args callee.params).mapM (b.expr fn)
      return Code.callFunction (← deref callee.fn) values) :=
    keeps_bind (keeps_exprs hb fn _) fun _ =>
      keeps_bind (keeps_deref _) fun _ => keeps_pure _
  exact hrest _ (hI.call cg name callee h hcg)

theorem keeps_buildConstructorCall (hb : b.KeepsExpr I) (fn : Option CgCallee)
    (c : CgClass) (args : List ASTExpr) :
    Keeps I (buildConstructorCall b fn c args) := by
  unfold buildConstructorCall
  refine keeps_bind (keeps_reads _) fun fieldNames => ?_
  split
  · exact keeps_pure _
  · exact keeps_bind (keeps_exprs hb fn _) fun _ => keeps_pure _

theorem keeps_buildBounds (hb : b.KeepsExpr I) (fn : Option CgCallee)
    (start' stop : ASTExpr) : Keeps I (buildBounds b fn start' stop) := by
  unfold buildBounds
  refine keeps_bind (keeps_testNull (hb.expr fn _)) fun _ => ?_
  refine keeps_bind (keeps_testNull (hb.expr fn _)) fun _ => ?_
  split
  · exact keeps_pure _
  · exact keeps_throw _

theorem keeps_buildRange (hb : b.KeepsExpr I) (fn : Option CgCallee)
    (args : List ASTExpr) : Keeps I (buildRange b fn args) := by
  unfold buildRange
  split
  · exact keeps_bind (hb.expr fn _) fun _ => keeps_pure _
  · exact keeps_bind (keeps_buildBounds hb fn _ _) fun _ => keeps_pure _
  · exact keeps_bind (keeps_buildBounds hb fn _ _) fun _ =>
      keeps_bind (hb.expr fn _) fun _ => keeps_pure _
  · exact keeps_throw _

theorem keeps_buildCall (hI : EventInvariant I) (hb : b.KeepsExpr I) (fn : Option CgCallee) (name : Ident)
    (args : List ASTExpr) : Keeps I (buildCall b fn name args) := by
  unfold buildCall
  split
  · exact keeps_buildRange hb fn args
  · split
    · split
      · exact keeps_throw _
      · exact keeps_bind (keeps_exprs hb fn args) fun _ => keeps_pure _
    · refine keeps_get_bind fun cg hcg => ?_
      cases hfind : cg.findFunction name with
      | some callee => exact keeps_buildFunctionCall hI hb fn hfind args hcg
      | none =>
          refine keeps_get_any (fun cg => ?_) cg hcg
          split
          · exact keeps_buildConstructorCall hb fn _ args
          · exact keeps_throw _

theorem keeps_chooseMethod (hI : EventInvariant I) (target : ASTExpr) (name : Ident) (argCount : ℕ) :
    Keeps I (chooseMethod target name argCount) := by
  refine keeps_get_bind fun cg hcg => ?_
  cases target with
  | var varName => exact hI.methodCall cg varName name argCount hcg
  | _ => exact hcg

theorem keeps_buildMethodCall (hI : EventInvariant I) (hb : b.KeepsExpr I) (fn : Option CgCallee)
    (target : ASTExpr) (name : Ident) (args : List ASTExpr) (isOptionalChain : Bool) :
    Keeps I (buildMethodCall b fn target name args isOptionalChain) := by
  unfold buildMethodCall
  refine keeps_bind (hb.expr fn target) fun self => ?_
  refine keeps_get_any fun cg => ?_
  split
  · exact keeps_bind (keeps_exprs hb fn args) fun _ => keeps_pure _
  · refine keeps_bind (keeps_chooseMethod hI target name args.length) fun direct => ?_
    refine keeps_bind (keeps_exprs hb fn args) fun values => ?_
    split <;> exact keeps_pure _

theorem keeps_buildElement (hb : b.KeepsExpr I) (fn : Option CgCallee) (e : ASTExpr) :
    Keeps I (buildElement b fn e) := by
  unfold buildElement
  refine keeps_bind (hb.exprUnboxed fn e) fun v => ?_
  split
  · exact keeps_pure _
  · exact hb.expr fn e

theorem keeps_buildEntry (hb : b.KeepsExpr I) (fn : Option CgCallee)
    (entry : ASTExpr × ASTExpr) : Keeps I (buildEntry b fn entry) := by
  unfold buildEntry
  split
  · exact keeps_bind (keeps_throw _) fun _ => keeps_bind (hb.expr fn _) fun _ =>
      keeps_bind (hb.expr fn _) fun _ => keeps_pure _
  · exact keeps_bind (hb.expr fn _) fun _ => keeps_bind (hb.expr fn _) fun _ => keeps_pure _

theorem keeps_buildLiteral (hb : b.KeepsExpr I) (fn : Option CgCallee) (e : ASTExpr)
    (boxed : Code) : Keeps I (buildLiteral b fn e boxed) := by
  unfold buildLiteral
  split
  · refine keeps_bind (hb.exprUnboxed fn e) fun v => ?_
    split <;> exact keeps_pure _
  · exact keeps_pure _

theorem keeps_buildBinaryBoxed (hb : b.KeepsExpr I) (fn : Option CgCallee) (op : Char)
    (left right : ASTExpr) : Keeps I (buildBinaryBoxed b fn op left right) :=
  keeps_bind (hb.expr fn left) fun _ => keeps_bind (hb.expr fn right) fun _ => keeps_pure _

theorem keeps_buildBinary (hb : b.KeepsExpr I) (fn : Option CgCallee) (op : Char)
    (left right : ASTExpr) : Keeps I (buildBinary b fn op left right) := by
  unfold buildBinary
  split
  · refine keeps_bind (keeps_buildBinaryUnboxed hb fn left right op) fun v => ?_
    split
    · exact keeps_pure _
    · exact keeps_buildBinaryBoxed hb fn op left right
  · exact keeps_buildBinaryBoxed hb fn op left right

theorem keeps_buildUnaryBoxed (hb : b.KeepsExpr I) (fn : Option CgCallee) (op : Char)
    (operand : ASTExpr) : Keeps I (buildUnaryBoxed b fn op operand) := by
  unfold buildUnaryBoxed
  refine keeps_bind (hb.expr fn operand) fun v => ?_
  split
  · exact keeps_pure _
  · split
    · exact keeps_pure _
    · exact keeps_throw _

theorem keeps_buildUnary (hb : b.KeepsExpr I) (fn : Option CgCallee) (op : Char)
    (operand : ASTExpr) : Keeps I (buildUnary b fn op operand) := by
  unfold buildUnary
  split
  · refine keeps_bind (keeps_buildUnaryUnboxed hb fn operand op) fun v => ?_
    split
    · exact keeps_pure _
    · exact keeps_buildUnaryBoxed hb fn op operand
  · exact keeps_buildUnaryBoxed hb fn op operand

theorem keeps_buildExpr (hI : EventInvariant I) (hb : b.KeepsExpr I) (fn : Option CgCallee) (e : ASTExpr) :
    Keeps I (buildExpr b fn e) := by
  unfold buildExpr
  cases e with
  | null => exact keeps_throw _
  | nil => exact keeps_pure _
  | bool v => exact keeps_buildLiteral hb fn _ _
  | int n => exact keeps_buildLiteral hb fn _ _
  | double d => exact keeps_buildLiteral hb fn _ _
  | string s => exact keeps_pure _
  | stringLiteral s => exact keeps_pure _
  | var name => exact keeps_get_any fun cg => keeps_pure _
  | binary op left right => exact keeps_buildBinary hb fn op left right
  | unary op operand => exact keeps_buildUnary hb fn op operand
  | index target index =>
      exact keeps_bind (hb.expr fn target) fun _ => keeps_bind (hb.expr fn index) fun _ =>
        keeps_pure _
  | member target member isOptionalChain =>
      exact keeps_bind (hb.expr fn target) fun _ => keeps_pure _
  | methodCall target name args isOptionalChain =>
      exact keeps_buildMethodCall hI hb fn target name args isOptionalChain
  | call name args => exact keeps_buildCall hI hb fn name args
  | arrayLiteral elements =>
      exact keeps_bind (keeps_mapM (keeps_buildElement hb fn) _) fun _ => keeps_pure _
  | dict entries =>
      exact keeps_bind (keeps_mapM (keeps_buildEntry hb fn) _) fun _ => keeps_pure _
  | structLiteral name fields =>
      exact keeps_bind (keeps_mapM (fun f : Ident × ASTExpr => hb.expr fn f.2) _) fun _ => keeps_pure _
  | classLiteral name fields =>
      exact keeps_bind (keeps_mapM (fun f : Ident × ASTExpr => hb.expr fn f.2) _) fun _ => keeps_pure _
  | self =>
      dsimp only
      split
      · exact keeps_pure _
      · exact keeps_throw _
  | super =>
      refine keeps_get_any fun cg => ?_
      split
      · exact keeps_pure _
      · exact keeps_throw _
  | array items => exact keeps_throw _

/-! ### Statements that declare nothing -/

theorem keeps_buildUnboxedCompoundAssign (hb : b.KeepsExpr I) (fn : Option CgCallee)
    (slot : StackSlot) (type : UnboxedType) (value : ASTExpr) (op : Char) :
    Keeps I (buildUnboxedCompoundAssign b fn slot type value op) := by
  unfold buildUnboxedCompoundAssign
  refine keeps_bind (hb.exprUnboxed fn value) fun rhs => ?_
  split
  · split
    · exact keeps_pure _
    · exact keeps_bind (keeps_deref _) fun _ => keeps_pure _
  · exact keeps_bind (keeps_deref _) fun _ => keeps_pure _

theorem keeps_buildUnboxedAssign (hb : b.KeepsExpr I) (fn : Option CgCallee)
    (slot : StackSlot) (type : UnboxedType) (value : ASTExpr) :
    Keeps I (buildUnboxedAssign b fn slot type value) := by
  unfold buildUnboxedAssign
  refine keeps_bind (hb.exprUnboxed fn value) fun v => ?_
  split
  · exact keeps_throw _
  · exact keeps_pure _

theorem keeps_buildBoxedCompoundAssign (hI : EventInvariant I) (hb : b.KeepsExpr I) (fn : Option CgCallee)
    (name : Ident) (value : ASTExpr) (op : Char) :
    Keeps I (buildBoxedCompoundAssign b fn name value op) := by
  unfold buildBoxedCompoundAssign
  refine keeps_bind (hb.expr fn (.var name)) fun lhs => ?_
  refine keeps_bind (hb.expr fn value) fun rhs => ?_
  refine keeps_get_bind fun cg hcg => ?_
  cases hvar : localVar cg fn name with
  | some var => exact hI.assign cg fn name (some op) _ (.localSlot var hvar) hcg
  | none => exact hI.assign cg fn name (some op) _ (.runtimeVar (.inr rfl) hvar) hcg

theorem keeps_buildIndexTarget (hb : b.KeepsExpr I) (fn : Option CgCallee)
    (target : ASTExpr) : Keeps I (buildIndexTarget b fn target) := by
  unfold buildIndexTarget
  split
  · refine keeps_get_any fun cg => ?_
    split
    · exact keeps_pure _
    · exact hb.expr fn _
  · exact hb.expr fn _

theorem keeps_buildIndexAssign (hb : b.KeepsExpr I) (fn : Option CgCallee)
    (target index value : ASTExpr) (op : Option Char) :
    Keeps I (buildIndexAssign b fn target index value op) := by
  unfold buildIndexAssign
  refine keeps_bind (hb.expr fn index) fun i => ?_
  refine keeps_bind (keeps_buildIndexTarget hb fn target) fun t => ?_
  refine keeps_bind (hb.expr fn value) fun v => ?_
  split <;> exact keeps_pure _

theorem keeps_buildMemberAssign (hb : b.KeepsExpr I) (fn : Option CgCallee)
    (target : ASTExpr) (member : Ident) (value : ASTExpr) (op : Option Char) :
    Keeps I (buildMemberAssign b fn target member value op) := by
  unfold buildMemberAssign
  refine keeps_bind (hb.expr fn target) fun t => ?_
  refine keeps_bind (hb.expr fn value) fun v => ?_
  split <;> exact keeps_pure _

theorem keeps_buildCondition (hb : b.KeepsExpr I) (fn : Option CgCallee)
    (condition : ASTExpr) : Keeps I (buildCondition b fn condition) := by
  unfold buildCondition
  refine keeps_bind (hb.exprUnboxed fn condition) fun v => ?_
  split
  · exact keeps_pure _
  · exact keeps_pure _
  · exact keeps_bind (hb.expr fn condition) fun _ => keeps_pure _
  · exact keeps_bind (hb.expr fn condition) fun _ => keeps_pure _

theorem keeps_buildIterable (hb : b.KeepsExpr I) (fn : Option CgCallee)
    (iterable : ASTExpr) : Keeps I (buildIterable b fn iterable) := by
  unfold buildIterable
  refine keeps_bind (hb.expr fn iterable) fun c => ?_
  refine keeps_bind (keeps_reads _) fun type => ?_
  split
  · exact keeps_pure _
  · exact keeps_pure _
  · exact keeps_throw _

theorem keeps_buildReturn (hb : b.KeepsExpr I) (fn : Option CgCallee) (e : ASTExpr) :
    Keeps I (buildReturn b fn e) := by
  unfold buildReturn
  refine keeps_bind (hb.expr fn e) fun v => ?_
  split
  · exact keeps_bind (keeps_throw _) fun _ => keeps_pure _
  · exact keeps_pure _

/-- The functions of a builder for expressions keep what events keep, by induction on
the stack that is left. -/
theorem builder_keepsExpr (hI : EventInvariant I) (n : ℕ) : (builder n).KeepsExpr I := by
  induction n with
  | zero => exact ⟨fun _ _ => keeps_throw _, fun _ _ => keeps_throw _⟩
  | succ n ih => exact ⟨keeps_buildExpr hI ih, keeps_buildExprUnboxed ih⟩

end Events

/-! ### Sequences of steps -/

/-- A computation of the generator, whatever it results in, is a sequence of
steps. -/
abbrev Lower.Steps {α : Type} (start : Cg) (m : Lower α) : Prop :=
  Keeps (Reaches start) m

/-- The functions of a builder take steps only. -/
structure Builder.Steps (b : Builder) (start : Cg) : Prop where
  expr : ∀ fn e, Lower.Steps start (b.expr fn e)
  exprUnboxed : ∀ fn e, Lower.Steps start (b.exprUnboxed fn e)
  stmt : ∀ fn s, Lower.Steps start (b.stmt fn s)

/-- Recording an event is a step. -/
theorem reaches_eventInvariant (start : Cg) : EventInvariant (Reaches start) where
  call cg name callee h hcg := hcg.tail (.call cg name callee h)
  methodCall cg varName name argCount hcg := hcg.tail (.methodCall cg varName name argCount)
  assign cg fn name op target h hcg := hcg.tail (.assign cg fn name op target h)

theorem Builder.Steps.keepsExpr {b : Builder} {start : Cg} (hb : b.Steps start) :
    b.KeepsExpr (Reaches start) :=
  ⟨hb.expr, hb.exprUnboxed⟩

section Steps

variable {start : Cg} {b : Builder}

theorem steps_newSlot : Lower.Steps start newSlot :=
  keeps_modifyGet fun cg hcg => hcg.tail (.slot cg)

theorem steps_addFunction (name : Ident) (n : ℕ) :
    Lower.Steps start (addFunction name n) :=
  keeps_modifyGet fun cg hcg => hcg.tail (.number cg)

theorem steps_scopeAddVar (var : CgVar) : Lower.Steps start (scopeAddVar var) :=
  keeps_modify fun cg hcg => hcg.tail (.scope cg _)

/-! ### Statements -/

theorem steps_buildStmts (hb : b.Steps start) (fn : Option CgCallee)
    (stmts : List ASTStmt) : Lower.Steps start (buildStmts b fn stmts) :=
  keeps_bind (keeps_mapM (hb.stmt fn) stmts) fun _ => keeps_pure _

theorem steps_buildBody (hb : b.Steps start) (fn : Option CgCallee)
    (body : Option (List ASTStmt)) : Lower.Steps start (buildBody b fn body) := by
  cases body with
  | none => exact keeps_pure _
  | some stmts => exact steps_buildStmts hb fn stmts

theorem steps_buildStmtsUntested (hb : b.Steps start) (fn : Option CgCallee)
    (stmts : List ASTStmt) : Lower.Steps start (buildStmtsUntested b fn stmts) := by
  induction stmts with
  | nil => exact keeps_pure _
  | cons s stmts ih =>
      unfold buildStmtsUntested
      refine keeps_bind (keeps_testNull (hb.stmt fn s)) fun code => ?_
      split
      · exact keeps_bind ih fun _ => keeps_pure _
      · exact keeps_pure _

theorem steps_buildVarDecl (hb : b.Steps start) (fn : Option CgCallee) (name : Ident)
    (type : VarType) (typeDesc : Option TypeDescriptor) (init : ASTExpr) (isConst : Bool) :
    Lower.Steps start (buildVarDecl b fn name type typeDesc init isConst) := by
  unfold buildVarDecl
  split
  · exact keeps_bind (hb.expr _ init) fun _ => keeps_pure _
  · split
    · exact keeps_bind (hb.exprUnboxed _ init) fun _ => keeps_bind steps_newSlot fun _ =>
        keeps_bind (steps_scopeAddVar _) fun _ => keeps_pure _
    · exact keeps_bind (hb.expr _ init) fun _ => keeps_bind steps_newSlot fun _ =>
        keeps_bind (steps_scopeAddVar _) fun _ => keeps_pure _

theorem steps_buildBoxedAssign (hb : b.Steps start) (fn : Option CgCallee) (name : Ident)
    (value : ASTExpr) : Lower.Steps start (buildBoxedAssign b fn name value) := by
  unfold buildBoxedAssign
  refine keeps_bind (hb.expr fn value) fun v => ?_
  cases fn with
  | none => exact fun cg hcg => hcg.tail (.assign cg none name none _ (.runtimeVar (.inl rfl) rfl))
  | some f =>
      refine keeps_get_bind fun cg hcg => ?_
      cases hvar : localVar cg (some f) name with
      | some var => exact hcg.tail (.assign cg (some f) name none _ (.localSlot var hvar))
      | none =>
          have hslot := hcg.tail (.slot cg)
          exact (hslot.tail (.assign _ (some f) name none _ (.newSlot _ rfl hvar))).tail
            (.scope _ _)

/-- The slot of an unboxed variable is the slot of the local variable. -/
theorem localVar_of_unboxedSlot {cg : Cg} {fn : Option CgCallee} {name : Ident}
    {type : UnboxedType} {slot : StackSlot} (h : unboxedSlot cg fn name = some (type, slot)) :
    ∃ var, localVar cg fn name = some var ∧ var.alloca = slot := by
  unfold unboxedSlot at h
  unfold localVar
  cases hvar : fn.bind fun _ => cg.scopeFindVar name with
  | none => simp [hvar] at h
  | some var =>
      rw [hvar] at h
      obtain ⟨t, -, heq⟩ := Option.map_eq_some_iff.mp h
      exact ⟨var, rfl, congrArg Prod.snd heq⟩

theorem steps_buildVarAssign (hb : b.Steps start) (fn : Option CgCallee) (name : Ident)
    (value : ASTExpr) (op : Option Char) :
    Lower.Steps start (buildVarAssign b fn name value op) := by
  refine keeps_get_bind fun cg hcg => ?_
  cases hslot : unboxedSlot cg fn name with
  | none =>
      cases op with
      | none => exact steps_buildBoxedAssign hb fn name value cg hcg
      | some op => exact keeps_buildBoxedCompoundAssign (reaches_eventInvariant _) hb.keepsExpr fn name value op cg hcg
  | some p =>
      obtain ⟨type, slot⟩ := p
      obtain ⟨var, hvar, rfl⟩ := localVar_of_unboxedSlot hslot
      have hassign := hcg.tail (.assign cg fn name op _ (.localSlot var hvar))
      cases op with
      | none => exact keeps_buildUnboxedAssign hb.keepsExpr fn _ type value _ hassign
      | some op => exact keeps_buildUnboxedCompoundAssign hb.keepsExpr fn _ type value op _ hassign

theorem steps_buildIf (hb : b.Steps start) (fn : Option CgCallee) (condition : ASTExpr)
    (thenBranch elseBranch : Option (List ASTStmt)) :
    Lower.Steps start (buildIf b fn condition thenBranch elseBranch) := by
  unfold buildIf
  refine keeps_bind (keeps_buildCondition hb.keepsExpr fn condition) fun c => ?_
  refine keeps_bind (steps_buildBody hb fn thenBranch) fun thenCode => ?_
  split
  · exact keeps_pure _
  · exact keeps_bind (steps_buildStmts hb fn _) fun _ => keeps_pure _

theorem steps_buildLoop {α : Type} (hb : b.Steps start) (fn : Option CgCallee)
    {head : Lower α} (hhead : Lower.Steps start head) (body : Option (List ASTStmt)) :
    Lower.Steps start (buildLoop b fn head body) := by
  refine keeps_get_any fun outer => ?_
  refine keeps_bind (keeps_modify fun cg hcg => hcg.tail (.loop cg true cg.loopHasScope))
    fun _ => ?_
  refine keeps_bind hhead fun a => ?_
  have hrest : Lower.Steps start (do
      let code ← buildBody b fn body
      modify fun cg =>
        { cg with inLoop := outer.inLoop, loopHasScope := outer.loopHasScope }
      return (a, code)) :=
    keeps_bind (steps_buildBody hb fn body) fun _ =>
      keeps_bind (keeps_modify fun cg hcg => hcg.tail (.loop cg _ _)) fun _ => keeps_pure _
  split
  · exact keeps_bind (keeps_modify fun cg hcg => hcg.tail (.loop cg cg.inLoop true))
      fun _ => hrest
  · exact hrest

theorem steps_buildWhile (hb : b.Steps start) (fn : Option CgCallee) (condition : ASTExpr)
    (body : Option (List ASTStmt)) : Lower.Steps start (buildWhile b fn condition body) :=
  keeps_bind (steps_buildLoop hb fn (keeps_buildCondition hb.keepsExpr fn condition) body) fun _ =>
    keeps_pure _

theorem steps_buildFor (hb : b.Steps start) (fn : Option CgCallee) (name : Ident)
    (rangeExpr : ASTExpr) (body : Option (List ASTStmt)) :
    Lower.Steps start (buildFor b fn name rangeExpr body) := by
  unfold buildFor
  split
  · exact keeps_throw _
  · exact keeps_bind (steps_buildLoop hb fn (keeps_pure _) body) fun _ => keeps_pure _

theorem steps_buildForIn (hb : b.Steps start) (fn : Option CgCallee) (name : Ident)
    (iterable : ASTExpr) (body : Option (List ASTStmt)) :
    Lower.Steps start (buildForIn b fn name iterable body) :=
  keeps_bind (steps_buildLoop hb fn (keeps_buildIterable hb.keepsExpr fn iterable) body) fun _ =>
    keeps_pure _

theorem steps_buildFuncDecl (decl : FuncDecl) : Lower.Steps start (buildFuncDecl decl) :=
  keeps_bind (steps_addFunction _ _) fun fn =>
    keeps_bind (keeps_modify fun cg hcg => hcg.tail (.function cg (functionEntry decl fn) rfl))
      fun _ => keeps_pure _

theorem steps_buildMethodFunction (hb : b.Steps start) (c : CgClass) (name : Ident)
    (decl : FuncDecl) : Lower.Steps start (buildMethodFunction b c name decl) := by
  unfold buildMethodFunction
  refine keeps_bind (steps_addFunction _ _) fun fn => ?_
  refine keeps_get_any fun outer => ?_
  refine keeps_bind (keeps_modify fun cg hcg => hcg.tail (.scope cg _)) fun _ => ?_
  refine keeps_bind (steps_buildStmtsUntested hb _ _) fun code => ?_
  refine keeps_bind (keeps_modify fun cg hcg => ?_) fun _ => keeps_pure _
  exact (hcg.tail (.scope cg outer.scope)).tail (.body _ _)

theorem steps_buildConstructor (hb : b.Steps start) (c : CgClass) :
    Lower.Steps start (buildConstructor b c) := by
  unfold buildConstructor
  split
  · exact keeps_pure _
  · refine keeps_bind (steps_buildMethodFunction hb c _ _) fun fn => ?_
    exact keeps_modify fun cg hcg => hcg.tail (.constructor cg c.name fn)

theorem steps_buildMethods (hb : b.Steps start) (c : CgClass) (index : ℕ)
    (methods : List FuncDecl) : Lower.Steps start (buildMethods b c index methods) := by
  induction methods generalizing index with
  | nil => exact keeps_pure _
  | cons decl methods ih =>
      unfold buildMethods
      split
      · refine keeps_bind (steps_buildMethodFunction hb c decl.name decl) fun fn => ?_
        exact keeps_bind (keeps_modify fun cg hcg => hcg.tail (.method cg c.name index fn))
          fun _ => ih (index + 1)
      · exact ih (index + 1)

theorem steps_buildClassDecl (hb : b.Steps start) (name : Ident) :
    Lower.Steps start (buildClassDecl b name) := by
  refine keeps_get_any fun cg => ?_
  split
  · exact keeps_throw _
  · exact keeps_bind (steps_buildConstructor hb _) fun _ =>
      keeps_bind (steps_buildMethods hb _ 0 _) fun _ => keeps_pure _

theorem steps_buildStmt (hb : b.Steps start) (fn : Option CgCallee) (s : ASTStmt) :
    Lower.Steps start (buildStmt b fn s) := by
  unfold buildStmt
  cases s with
  | expr e => exact keeps_bind (hb.expr fn e) fun _ => keeps_pure _
  | varAssign name value op => exact steps_buildVarAssign hb fn name value op
  | indexAssign target index value op =>
      exact keeps_buildIndexAssign hb.keepsExpr fn target index value op
  | memberAssign target member value op =>
      exact keeps_buildMemberAssign hb.keepsExpr fn target member value op
  | print e => exact keeps_bind (hb.expr fn e) fun _ => keeps_pure _
  | varDecl name type typeDesc init isConst =>
      exact steps_buildVarDecl hb fn name type typeDesc init isConst
  | ifStmt condition thenBranch elseBranch =>
      exact steps_buildIf hb fn condition thenBranch elseBranch
  | whileStmt condition body => exact steps_buildWhile hb fn condition body
  | forStmt name rangeExpr body => exact steps_buildFor hb fn name rangeExpr body
  | forIn name iterable body => exact steps_buildForIn hb fn name iterable body
  | funcDecl decl => exact steps_buildFuncDecl decl
  | «return» e tag => exact keeps_buildReturn hb.keepsExpr fn e
  | «break» =>
      refine keeps_get_any fun cg => ?_
      split
      · exact keeps_pure _
      · exact keeps_throw _
  | «continue» =>
      refine keeps_get_any fun cg => ?_
      split
      · exact keeps_pure _
      · exact keeps_throw _
  | structDecl name fields => exact keeps_pure _
  | classDecl name parentName fields methods constructor => exact steps_buildClassDecl hb name
  | importStmt modulePath moduleAlias isSelective symbols => exact keeps_throw _
  | exportStmt isDefault symbols => exact keeps_throw _

/-- **The builder takes steps only**, by induction on the stack that is left. -/
theorem builder_steps (start : Cg) (n : ℕ) : (builder n).Steps start := by
  induction n with
  | zero =>
      exact ⟨fun _ _ => keeps_throw _, fun _ _ => keeps_throw _, fun _ _ => keeps_throw _⟩
  | succ n ih =>
      exact ⟨keeps_buildExpr (reaches_eventInvariant _) ih.keepsExpr,
        keeps_buildExprUnboxed ih.keepsExpr, steps_buildStmt ih⟩

/-! ### The module -/

theorem steps_setupParams (params : List ASTParam) :
    Lower.Steps start (setupParams params) := by
  induction params with
  | nil => exact keeps_pure _
  | cons p params ih =>
      unfold setupParams
      exact keeps_bind steps_newSlot fun _ => keeps_bind (steps_scopeAddVar _) fun _ =>
        keeps_bind ih fun _ => keeps_pure _

theorem steps_generateFunctionBody (hb : b.Steps start) (f : CgFunction) :
    Lower.Steps start (generateFunctionBody b f) := by
  unfold generateFunctionBody
  split
  · exact keeps_pure _
  · refine keeps_bind (keeps_deref _) fun fn => ?_
    refine keeps_bind (keeps_modify fun cg hcg => hcg.tail (.scope cg _)) fun _ => ?_
    refine keeps_bind (steps_setupParams _) fun params => ?_
    refine keeps_bind (steps_buildStmts hb _ _) fun code => ?_
    exact keeps_modify fun cg hcg => hcg.tail (.body cg _)

theorem steps_generateFunctionBodies (hb : b.Steps start) (functions : List CgFunction) :
    Lower.Steps start (generateFunctionBodies b functions) :=
  keeps_forM (steps_generateFunctionBody hb) functions

theorem steps_generateClassMethods (classes : List CgClass) :
    Lower.Steps start (generateClassMethods classes) := by
  refine keeps_forM (fun c => keeps_forM (fun m => ?_) _) classes
  split
  · exact keeps_pure _
  · exact keeps_bind (keeps_deref _) fun _ => keeps_pure _

/-- The passes of `buildModule` after the top-level statements. -/
theorem steps_buildModule_rest (hb : b.Steps start) (main : List CodeStmt) :
    Lower.Steps start (do
      generateFunctionBodies b (← get).functions
      generateClassMethods (← get).classes
      return main) :=
  keeps_get_any fun s => keeps_bind (steps_generateFunctionBodies hb s.functions) fun _ =>
    keeps_get_any fun s => keeps_bind (steps_generateClassMethods s.classes) fun _ =>
      keeps_pure main

/-- Once the top-level statements have been built, the rest takes steps from the
state they leave. -/
theorem buildModule_after (n : ℕ) (program : ASTStmtList) {cg : Cg} {main : List CodeStmt}
    (h : (buildStmts (builder n) none program).result cg = .ok main) :
    Reaches ((buildStmts (builder n) none program).final cg)
      ((buildModule n program).final cg) := by
  have hfinal := final_bind_of_ok (f := fun main => do
    generateFunctionBodies (builder n) (← get).functions
    generateClassMethods (← get).classes
    return main) h
  have heq : (buildModule n program).final cg = _ := hfinal
  rw [heq]
  exact steps_buildModule_rest (builder_steps _ n) main _ .refl

/-- **Everything the code generator does to its state is a sequence of steps.** -/
theorem buildModule_reaches (n : ℕ) (program : ASTStmtList) (cg : Cg) :
    Reaches cg ((buildModule n program).final cg) := by
  have hb := builder_steps cg n
  have h : Lower.Steps cg (buildModule n program) :=
    keeps_bind (steps_buildStmts hb none program) fun main => steps_buildModule_rest hb main
  exact h cg .refl

end Steps

end BreadLang
