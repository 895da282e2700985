import BreadLang.Codegen.Expr
import BreadLang.Codegen.ProgramPoints

/-!
# Where values flow

The places of a program where the value of an expression flows into something
that has a declared type: a variable, an element, a field, a parameter or the
result of a function.  A flow is compatible when the type that is inferred for
the expression is compatible with the declared one.

The analysis compares the two types where a variable is declared or assigned and
where a function returns.  It does not compare them where an element or a field
is assigned or an argument is passed, and it does not visit the bodies of
methods and constructors.  `flows_compatible_iff` says that nothing else is
missing.
-/

namespace BreadLang

open Analyze

/-! ### Declared types -/

/-- The class whose methods a body belongs to. -/
def BodyContext.currentClass (cg : Cg) : BodyContext → Option CgClass
  | .method className _ _ => cg.findClass className
  | _ => none

namespace Cg

variable (cg : Cg)

/-- The type of a field of a class, which may be inherited. -/
def classFieldType (c : CgClass) (member : Ident) : Option TypeDescriptor :=
  (cg.searchAncestors c fun c => .ok (fieldType c.fields member)).toOption.join

/-- The declared type of a member.  A parameter whose type is the name of a class
has a struct type. -/
def declaredMemberType (target : TypeDescriptor) (member : Ident) : Option TypeDescriptor :=
  match target with
  | .dict _ value => some value
  | .struct name _ | .class name _ _ =>
      match cg.findStruct name with
      | some s => fieldType s.fields member
      | none => (cg.findClass name).bind fun c => cg.classFieldType c member
  | _ => none

/-- The declared type of an element. -/
def declaredElementType : TypeDescriptor → Option TypeDescriptor
  | .array element => some element
  | .dict _ value => some value
  | _ => none

/-- The declared type of a name: in a method, what is declared in the method comes
before the fields of the class, and these before what is declared around the
class. -/
def declaredVarType (body : BodyContext) (name : Ident) : Option TypeDescriptor :=
  match body with
  | .method className outerDepth _ =>
      let field := (cg.findClass className).bind fun c => cg.classFieldType c name
      match cg.findVarInScope name with
      | some var =>
          if outerDepth < var.isInitialized then var.typeDesc else field <|> var.typeDesc
      | none => field
  | _ => (cg.findVarInScope name).bind CgVar.typeDesc

/-- The type of an expression that is assigned to or called upon.  In a method
`self` has the type of the class. -/
def placeType (body : BodyContext) : ASTExpr → Option TypeDescriptor
  | .self => (body.currentClass cg).map CgClass.typeDesc
  | .var name => cg.declaredVarType body name
  | .member target member _ =>
      (placeType body target).bind fun d => cg.declaredMemberType d member
  | .index target _ => (placeType body target).bind declaredElementType
  | e => (cg.inferTypeDesc e).toOption

/-- The type that a built-in function asks of its argument: `param_types` in
`register_builtin_functions`, where `TYPE_NIL` asks for nothing. -/
def builtinParamType (name : Ident) : Option TypeDescriptor :=
  if name == "input".toList then some .string else none

/-- The values that a call of that name passes, with the types of the parameters:
the arguments, and the defaults of the parameters without one. -/
def callFlows (name : Ident) (args : List ASTExpr) : List (ASTExpr × Option TypeDescriptor) :=
  if (builtinLookup name).isSome then
    args.map fun arg => (arg, builtinParamType name)
  else
    match (cg.findFunction name).map CgFunction.params <|>
        ((cg.findClass name).bind CgClass.constructor).map ASTFuncDecl.params with
    | some params => (callArgs args params).zip (params.map ASTParam.typeDesc)
    | none => []

/-- The class whose method is called. -/
def methodClass (body : BodyContext) : ASTExpr → Option CgClass
  | .super => (body.currentClass cg).bind cg.parentClass
  | target => ((cg.placeType body target).bind nominalName).bind cg.findClass

/-- The declaration of a method or, under the name `init`, of the constructor. -/
def methodDecl (c : CgClass) (name : Ident) : Option FuncDecl :=
  if name == "init".toList then c.constructor
  else (cg.findClassMethodDecl c name).toOption.join

/-- The values that a method call passes, with the types of the parameters. -/
def methodCallFlows (body : BodyContext) (target : ASTExpr) (name : Ident)
    (args : List ASTExpr) : List (ASTExpr × Option TypeDescriptor) :=
  match (cg.methodClass body target).bind fun c => cg.methodDecl c name with
  | some decl => args.zip (decl.params.map ASTParam.typeDesc)
  | none => []

end Cg

/-! ### Flows -/

/-- What the value of an expression flows into. -/
inductive FlowKind where
  | initialiser
  | assignment
  | element
  | member
  | argument
  | returned
  deriving DecidableEq

/-- A flow of a program, with the body it stands in and the state there.  The
declared type may be missing. -/
structure ValueFlow where
  kind : FlowKind
  body : BodyContext
  cg : Cg
  source : ASTExpr
  declared : Option TypeDescriptor

namespace ValueFlow

/-- **A compatible flow**: the type inferred for the expression is compatible with
the declared type. -/
def compatible (f : ValueFlow) : Bool :=
  match f.cg.inferTypeDesc f.source, f.declared with
  | .ok type, some declared => type.compatible declared
  | _, _ => true

/-- The flows that the analysis looks at. -/
def checked (f : ValueFlow) : Bool :=
  f.body.analysed &&
    match f.kind with
    | .initialiser | .assignment | .returned => true
    | .element | .member | .argument => false

end ValueFlow

namespace Point

variable (p : Point)

/-- The flows into the parameters of what an expression calls. -/
def callFlows (e : ASTExpr) : List ValueFlow :=
  let flows :=
    match e with
    | .call name args => p.cg.callFlows name args
    | .methodCall target name args _ => p.cg.methodCallFlows p.body target name args
    | _ => []
  flows.map fun flow => ⟨.argument, p.body, p.cg, flow.1, flow.2⟩

/-- The flows into parameters at a place. -/
def argumentFlows : List ValueFlow :=
  ((p.stmt.exprs ++ p.stmt.defaults).flatMap ASTExpr.subexprs).flatMap p.callFlows

/-- The flow that the statement at a place is there for. -/
def statementFlows : List ValueFlow :=
  match p.stmt with
  | .varDecl _ _ typeDesc init _ =>
      [⟨.initialiser, p.body, p.cg, init, typeDesc.map (resolveClass p.cg)⟩]
  | .varAssign name value _ =>
      [⟨.assignment, p.body, p.cg, value, p.cg.declaredVarType p.body name⟩]
  | .indexAssign target _ value _ =>
      [⟨.element, p.body, p.cg, value,
        (p.cg.placeType p.body target).bind Cg.declaredElementType⟩]
  | .memberAssign target member value _ =>
      [⟨.member, p.body, p.cg, value, p.cg.placeType p.body (.member target member false)⟩]
  | .return e _ => [⟨.returned, p.body, p.cg, e, p.body.decl.bind ASTFuncDecl.returnTypeDesc⟩]
  | _ => []

def flows : List ValueFlow :=
  p.statementFlows ++ p.argumentFlows

end Point

/-- **The flows of a program.** -/
def programFlows (program : ASTStmtList) : List ValueFlow :=
  (programPoints program).flatMap Point.flows

/-- Every flow of a program is compatible. -/
def FlowsCompatible (program : ASTStmtList) : Prop :=
  ∀ f ∈ programFlows program, f.compatible = true

/-- Every flow that the analysis does not look at is compatible. -/
def UncheckedFlowsCompatible (program : ASTStmtList) : Prop :=
  ∀ f ∈ programFlows program, f.checked = false → f.compatible = true

/-! ### The checks of the analysis -/

section Checks

variable {cg : Cg} {e : ASTExpr} {d : TypeDescriptor} {t : Option TypeDescriptor}

theorem inferTag_ok (h : some <$> cg.inferTag e = .ok t) (hinfer : cg.inferTypeDesc e = .ok d) :
    t = some d := by
  unfold Cg.inferTag at h
  rw [hinfer] at h
  cases h
  rfl

/-- The type that the analysis stores in an expression is the inferred one. -/
theorem analyzeExpr_type (h : cg.analyzeExpr e = .ok t) (hinfer : cg.inferTypeDesc e = .ok d) :
    t = some d := by
  cases e with
  | null =>
      rw [Cg.inferTypeDesc] at hinfer
      cases hinfer
  | var name =>
      rw [Cg.analyzeExpr] at h
      split at h
      · cases h
      · exact inferTag_ok h hinfer
  | call name args =>
      rw [Cg.analyzeExpr] at h
      obtain ⟨u, -, h⟩ := bind_eq_ok.mp h
      obtain ⟨u, -, h⟩ := bind_eq_ok.mp h
      exact inferTag_ok h hinfer
  | binary op left right =>
      rw [Cg.analyzeExpr] at h
      obtain ⟨l, -, h⟩ := bind_eq_ok.mp h
      obtain ⟨r, -, h⟩ := bind_eq_ok.mp h
      exact inferTag_ok h hinfer
  | index target index =>
      rw [Cg.analyzeExpr] at h
      obtain ⟨l, -, h⟩ := bind_eq_ok.mp h
      obtain ⟨r, -, h⟩ := bind_eq_ok.mp h
      exact inferTag_ok h hinfer
  | methodCall target name args isOptionalChain =>
      rw [Cg.analyzeExpr] at h
      obtain ⟨l, -, h⟩ := bind_eq_ok.mp h
      obtain ⟨u, -, h⟩ := bind_eq_ok.mp h
      exact inferTag_ok h hinfer
  | unary op operand | member target member isOptionalChain | arrayLiteral elements
  | dict entries | structLiteral name fields | classLiteral name fields =>
      rw [Cg.analyzeExpr] at h
      obtain ⟨l, -, h⟩ := bind_eq_ok.mp h
      exact inferTag_ok h hinfer
  | nil | bool | int | double | string | self | super | array | stringLiteral =>
      exact inferTag_ok h hinfer

end Checks

/-! ### Accepted programs -/

section Accepted

variable {p : Point} {f : ValueFlow}

theorem kind_of_callFlows {e : ASTExpr} (hf : f ∈ p.callFlows e) : f.kind = .argument := by
  unfold Point.callFlows at hf
  obtain ⟨flow, -, rfl⟩ := List.mem_map.mp hf
  rfl

theorem argumentFlows_not_checked (hf : f ∈ p.argumentFlows) : f.checked = false := by
  unfold Point.argumentFlows at hf
  obtain ⟨e, -, hf⟩ := List.mem_flatMap.mp hf
  unfold ValueFlow.checked
  rw [kind_of_callFlows hf, Bool.and_false]

/-- The comparison of the analysis is the one of the flow. -/
theorem compatible_of_analyzeExpr {tag : Option TypeDescriptor}
    (htag : f.cg.analyzeExpr f.source = .ok tag)
    (h : ∀ t d, tag = some t → f.declared = some d → t.compatible d = true) :
    f.compatible = true := by
  unfold ValueFlow.compatible
  split
  · rename_i type declared htype hdeclared
    exact h type declared (analyzeExpr_type htag htype) hdeclared
  · rfl

theorem declaredVarType_of_analysed {cg : Cg} {body : BodyContext} {name : Ident}
    (h : body.analysed = true) :
    cg.declaredVarType body name = (cg.findVarInScope name).bind CgVar.typeDesc := by
  cases body <;> first | rfl | cases h

/-- A `return` that has passed the check returns a compatible value, or none. -/
theorem compatible_of_checkReturnStmt {decl : FuncDecl} {e : ASTExpr}
    {tag : Option TypeDescriptor} (h : Cg.checkReturnStmt decl e tag = .ok ())
    (he : e.isNull = false) {t d : TypeDescriptor} (ht : tag = some t)
    (hd : decl.returnTypeDesc = some d) : t.compatible d = true := by
  subst ht
  unfold Cg.checkReturnStmt at h
  rw [he, hd] at h
  by_contra hcompatible
  simp [hcompatible, cgTypeError] at h

/-- **The statements of the analysis**: at a place that has passed the checks, the
flow of the statement is compatible if the analysis looks at it. -/
theorem statementFlows_compatible (haccepted : p.body.analysed = true → p.Accepted)
    (hf : f ∈ p.statementFlows) (hchecked : f.checked = true) : f.compatible = true := by
  obtain ⟨body, cg, s⟩ := p
  have hanalysed : f.body.analysed = true := (Bool.and_eq_true_iff.mp hchecked).1
  cases s with
  | varDecl name type typeDesc init isConst =>
      cases List.mem_singleton.mp hf
      obtain ⟨initType, declared, -, hinit, rfl, -, hcompatible⟩ := haccepted hanalysed
      refine compatible_of_analyzeExpr hinit fun t d ht hd => ?_
      cases hd
      exact hcompatible t ht
  | varAssign name value op =>
      cases List.mem_singleton.mp hf
      obtain ⟨var, hvar, -, valueType, hvalue, hcompatible⟩ := haccepted hanalysed
      refine compatible_of_analyzeExpr hvalue fun t d ht hd => ?_
      have hdeclared : var.typeDesc = some d := by
        rw [declaredVarType_of_analysed hanalysed, hvar] at hd
        exact hd
      exact hcompatible t d ht hdeclared
  | «return» e tag =>
      cases List.mem_singleton.mp hf
      obtain ⟨tag, htag, hreturn⟩ := haccepted hanalysed
      refine compatible_of_analyzeExpr htag fun t d ht hd => ?_
      obtain ⟨decl, hdecl, hreturns⟩ := Option.bind_eq_some_iff.mp hd
      refine compatible_of_checkReturnStmt (hreturn decl hdecl) ?_ ht hreturns
      -- a missing value has no type
      cases e <;> first | rfl | skip
      rw [Cg.analyzeExpr] at htag
      cases htag
      cases ht
  | indexAssign target index value op =>
      cases List.mem_singleton.mp hf
      exact absurd hchecked (by simp [ValueFlow.checked])
  | memberAssign target member value op =>
      cases List.mem_singleton.mp hf
      exact absurd hchecked (by simp [ValueFlow.checked])
  | _ => cases hf

end Accepted

/-- **Flows are compatible exactly as far as the analysis does not look**: in a
program that it accepts every flow is compatible if and only if those into
elements, fields and parameters are, and those in the bodies of methods and
constructors. -/
theorem flows_compatible_iff {program program' : ASTStmtList} {cg : Cg}
    (h : semanticAnalyze .init program = .ok (program', cg)) :
    FlowsCompatible program ↔ UncheckedFlowsCompatible program := by
  constructor
  · exact fun hall f hf _ => hall f hf
  · intro hunchecked f hf
    cases hchecked : f.checked with
    | false => exact hunchecked f hf hchecked
    | true =>
        obtain ⟨p, hp, hf⟩ := List.mem_flatMap.mp hf
        rcases List.mem_append.mp hf with hf | hf
        · exact statementFlows_compatible (semanticAnalyze_accepted h p hp) hf hchecked
        · rw [argumentFlows_not_checked hf] at hchecked
          cases hchecked

/-- `let a: [Int] = [1]` and `a[0] = "x"`. -/
def stringIntoIntArray : ASTStmtList :=
  [.varDecl "a".toList .typeArray (some (.array .int)) (.arrayLiteral [.int 1]) false,
    .indexAssign (.var "a".toList) (.int 0) (.stringLiteral "x".toList) none]

/-- The program is accepted, and a string flows into an element of an array of
integers. -/
theorem stringIntoIntArray_not_compatible :
    ∃ program' cg, semanticAnalyze .init stringIntoIntArray = .ok (program', cg) ∧
      ¬ FlowsCompatible stringIntoIntArray := by
  refine ⟨_, _, rfl, fun hall => ?_⟩
  have hany : (programFlows stringIntoIntArray).any (fun f => !f.compatible) = true := by
    decide +kernel
  obtain ⟨f, hf, hnot⟩ := List.any_eq_true.mp hany
  rw [hall f hf] at hnot
  cases hnot

/-- `let a: [Int] = [1]` and `a[0] = 2`. -/
def intIntoIntArray : ASTStmtList :=
  [.varDecl "a".toList .typeArray (some (.array .int)) (.arrayLiteral [.int 1]) false,
    .indexAssign (.var "a".toList) (.int 0) (.int 2) none]

theorem intIntoIntArray_compatible :
    ∃ program' cg, semanticAnalyze .init intIntoIntArray = .ok (program', cg) ∧
      (FlowsCompatible intIntoIntArray ↔ UncheckedFlowsCompatible intIntoIntArray) ∧
      FlowsCompatible intIntoIntArray := by
  have hall : (programFlows intIntoIntArray).all ValueFlow.compatible = true := by decide +kernel
  refine ⟨_, _, rfl, @flows_compatible_iff intIntoIntArray _ _ rfl, ?_⟩
  exact fun f hf => List.all_eq_true.mp hall f hf

end BreadLang
