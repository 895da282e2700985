import BreadLang.Codegen.AnalyzeStmt

/-!
# The places of a program

Every statement of a program, at every nesting and in every kind of body, with
the tables and the variables that are in scope before it.  The walk declares
what the analysis declares, also in the bodies of methods and constructors,
which the analysis does not visit.

`semanticAnalyze_accepted` says what an accepted program has passed, statement by
statement: at each place that the analysis visits, the checks that
`cg_analyze_stmt` and `cg_check_returns_in_stmt` make of that form of
statement.
-/

namespace BreadLang

open Analyze

/-! ### Subexpressions -/

mutual

/-- An expression and the expressions in it. -/
def ASTExpr.subexprs : ASTExpr → List ASTExpr
  | e@(.binary _ left right) => e :: (left.subexprs ++ right.subexprs)
  | e@(.unary _ operand) => e :: operand.subexprs
  | e@(.call _ args) => e :: subexprsOf args
  | e@(.array items) => e :: subexprsOf items
  | e@(.dict entries) => e :: subexprsOfEntries entries
  | e@(.index target index) => e :: (target.subexprs ++ index.subexprs)
  | e@(.member target _ _) => e :: target.subexprs
  | e@(.methodCall target _ args _) => e :: (target.subexprs ++ subexprsOf args)
  | e@(.arrayLiteral elements) => e :: subexprsOf elements
  | e@(.structLiteral _ fields) => e :: subexprsOfFields fields
  | e@(.classLiteral _ fields) => e :: subexprsOfFields fields
  | e => [e]

def subexprsOf : List ASTExpr → List ASTExpr
  | [] => []
  | e :: es => e.subexprs ++ subexprsOf es

def subexprsOfEntries : List (ASTExpr × ASTExpr) → List ASTExpr
  | [] => []
  | (key, value) :: entries => key.subexprs ++ value.subexprs ++ subexprsOfEntries entries

def subexprsOfFields : List (Ident × ASTExpr) → List ASTExpr
  | [] => []
  | (_, value) :: fields => value.subexprs ++ subexprsOfFields fields

end

/-- The expressions of a statement, without the statements in it. -/
def ASTStmt.exprs : ASTStmt → List ASTExpr
  | .varDecl _ _ _ init _ => [init]
  | .varAssign _ value _ => [value]
  | .indexAssign target index value _ => [target, index, value]
  | .memberAssign target _ value _ => [target, value]
  | .print e | .expr e | .return e _ | .forStmt _ e _ | .forIn _ e _ => [e]
  | .ifStmt condition _ _ | .whileStmt condition _ => [condition]
  | _ => []

/-- The default values in the declaration of a function or class. -/
def ASTStmt.defaults : ASTStmt → List ASTExpr
  | .funcDecl decl => decl.params.map ASTParam.default
  | .classDecl _ _ _ methods constructor =>
      (constructor.toList ++ methods).flatMap fun decl => decl.params.map ASTParam.default
  | _ => []

/-! ### What a statement declares -/

/-- The state after a declaration.  One that the analysis would refuse declares
nothing. -/
def Cg.declared (cg : Cg) (name : Ident) (typeDesc : Option TypeDescriptor) (isConst : Bool) :
    Cg :=
  (cg.declareVar name typeDesc isConst).toOption.getD cg

/-- The state after the parameters of a function are declared. -/
def Cg.declaredParams (cg : Cg) (params : List ASTParam) : Cg :=
  params.foldl (fun cg p => cg.declared p.name p.typeDesc false) cg

mutual

/-- **The state after a statement.** -/
def afterStmt : Cg → ASTStmt → Cg
  | cg, .varDecl name _ typeDesc _ isConst =>
      cg.declared name (typeDesc.map (resolveClass cg)) isConst
  | cg, .ifStmt _ thenBranch elseBranch =>
      afterElse (afterBody cg.enterScope thenBranch).leaveScope elseBranch
  | cg, .whileStmt _ body => (afterBody cg.enterScope body).leaveScope
  | cg, .forStmt name _ body =>
      (afterBody (cg.enterScope.declared name (some .int) false) body).leaveScope
  | cg, .forIn name iterable body =>
      (afterBody (cg.enterScope.declared name (loopVarType cg.enterScope iterable) false)
        body).leaveScope
  | cg, .funcDecl decl => afterFunction cg decl
  | cg, .structDecl name fields => (cg.declareStructFromAst name fields).toOption.getD cg
  | cg, .classDecl name parentName fields methods constructor =>
      (cg.declareClassFromAst name parentName fields methods constructor).toOption.getD cg
  | cg, _ => cg

/-- The state after a branch of an `if` that may be missing. -/
def afterElse : Cg → Option (List ASTStmt) → Cg
  | cg, none => cg
  | cg, some stmts => (afterStmts cg.enterScope stmts).leaveScope

def afterBody : Cg → Option (List ASTStmt) → Cg
  | cg, none => cg
  | cg, some stmts => afterStmts cg stmts

def afterStmts : Cg → List ASTStmt → Cg
  | cg, [] => cg
  | cg, s :: stmts => afterStmts (afterStmt cg s) stmts

def afterFunction : Cg → ASTFuncDecl ASTStmt → Cg
  | cg, ⟨_, params, _, _, body⟩ =>
      (afterBody (cg.enterScope.declaredParams params) body).leaveScope

end

/-! ### Places -/

/-- The body that a statement stands in, with the function whose `return`s are in
it.  A method also has its class, and the depth of the scope in which the class
is declared. -/
inductive BodyContext where
  | topLevel
  | function (decl : FuncDecl)
  | method (className : Ident) (outerDepth : ℕ) (decl : FuncDecl)
  /-- A function that is declared in the body of a method. -/
  | functionInMethod (decl : FuncDecl)

namespace BodyContext

/-- Whether the analysis visits the body. -/
def analysed : BodyContext → Bool
  | .topLevel | .function _ => true
  | .method _ _ _ | .functionInMethod _ => false

/-- The function whose `return`s are in the body. -/
def decl : BodyContext → Option FuncDecl
  | .topLevel => none
  | .function decl | .method _ _ decl | .functionInMethod decl => some decl

/-- The body of a function that is declared in a body. -/
def inner (body : BodyContext) (decl : FuncDecl) : BodyContext :=
  if body.analysed then .function decl else .functionInMethod decl

theorem inner_analysed (body : BodyContext) (decl : FuncDecl) :
    (body.inner decl).analysed = body.analysed := by
  cases body <;> rfl

end BodyContext

/-- A statement of a program, with the body it stands in and the state before
it. -/
structure Point where
  body : BodyContext
  cg : Cg
  stmt : ASTStmt

mutual

/-- The places inside a statement. -/
def innerPoints : BodyContext → Cg → ASTStmt → List Point
  | body, cg, .ifStmt _ thenBranch elseBranch =>
      bodyPoints body cg.enterScope thenBranch ++
        bodyPoints body (afterBody cg.enterScope thenBranch).leaveScope.enterScope elseBranch
  | body, cg, .whileStmt _ stmts => bodyPoints body cg.enterScope stmts
  | body, cg, .forStmt name _ stmts =>
      bodyPoints body (cg.enterScope.declared name (some .int) false) stmts
  | body, cg, .forIn name iterable stmts =>
      bodyPoints body
        (cg.enterScope.declared name (loopVarType cg.enterScope iterable) false) stmts
  | body, cg, .funcDecl decl => functionPoints (body.inner decl) cg decl
  | _, cg, s@(.classDecl name _ _ methods constructor) =>
      methodPoints name (afterStmt cg s) methods ++
        constructorPoints name (afterStmt cg s) constructor
  | _, _, _ => []

def bodyPoints : BodyContext → Cg → Option (List ASTStmt) → List Point
  | _, _, none => []
  | body, cg, some stmts => stmtsPoints body cg stmts

/-- **The places of a list of statements**: each of them, and the places inside
it. -/
def stmtsPoints : BodyContext → Cg → List ASTStmt → List Point
  | _, _, [] => []
  | body, cg, s :: stmts =>
      ⟨body, cg, s⟩ :: (innerPoints body cg s ++ stmtsPoints body (afterStmt cg s) stmts)

def functionPoints : BodyContext → Cg → ASTFuncDecl ASTStmt → List Point
  | body, cg, ⟨_, params, _, _, stmts⟩ =>
      bodyPoints body (cg.enterScope.declaredParams params) stmts

/-- The places in the methods of a class. -/
def methodPoints : Ident → Cg → List (ASTFuncDecl ASTStmt) → List Point
  | _, _, [] => []
  | name, cg, decl :: methods =>
      functionPoints (.method name cg.scopeDepth decl) cg decl ++ methodPoints name cg methods

/-- The places in the constructor of a class. -/
def constructorPoints : Ident → Cg → Option (ASTFuncDecl ASTStmt) → List Point
  | _, _, none => []
  | name, cg, some decl => functionPoints (.method name cg.scopeDepth decl) cg decl

end

/-- The state after the functions of a program are declared. -/
def Cg.declaredFunctions (cg : Cg) (program : ASTStmtList) : Cg :=
  ((declareFunctions program).run cg).toOption.elim cg Prod.snd

/-- **The places of a program**, from the state that `cg_semantic_analyze` starts
with. -/
def programPoints (program : ASTStmtList) : List Point :=
  stmtsPoints .topLevel (Cg.init.declaredFunctions program) program

/-! ### What the analysis has checked -/

/-- **The checks of a statement**: what `cg_analyze_stmt` and
`cg_check_returns_in_stmt` look at besides the statements in it. -/
def AcceptedAt (body : BodyContext) (cg : Cg) : ASTStmt → Prop
  | .varDecl name _ typeDesc init isConst =>
      ∃ initType declared cg', cg.analyzeExpr init = .ok initType ∧ typeDesc = some declared ∧
        cg.declareVar name (some (resolveClass cg declared)) isConst = .ok cg' ∧
        ∀ t, initType = some t → t.compatible (resolveClass cg declared) = true
  | .varAssign name value _ =>
      ∃ var, cg.findVarInScope name = some var ∧ var.isConst = false ∧ AssignsTyped cg value var
  | .indexAssign target index value _ =>
      (∃ t, cg.analyzeExpr target = .ok t) ∧ (∃ t, cg.analyzeExpr index = .ok t) ∧
        ∃ t, cg.analyzeExpr value = .ok t
  | .memberAssign target _ value _ =>
      (∃ t, cg.analyzeExpr target = .ok t) ∧ ∃ t, cg.analyzeExpr value = .ok t
  | .print e | .expr e | .forStmt _ e _ | .forIn _ e _ => ∃ t, cg.analyzeExpr e = .ok t
  | .ifStmt condition _ _ | .whileStmt condition _ => ConditionAccepted cg condition
  | .return e _ =>
      ∃ tag, cg.analyzeExpr e = .ok tag ∧
        ∀ decl, body.decl = some decl → Cg.checkReturnStmt decl e tag = .ok ()
  | _ => True

def Point.Accepted (p : Point) : Prop :=
  AcceptedAt p.body p.cg p.stmt

/-- The places that the analysis visits have been checked. -/
def AllAccepted (points : List Point) : Prop :=
  ∀ p ∈ points, p.body.analysed = true → p.Accepted

section AllAccepted

variable {p : Point} {points points' : List Point}

theorem allAccepted_nil : AllAccepted [] := by
  intro p hp
  cases hp

theorem allAccepted_append (h : AllAccepted points) (h' : AllAccepted points') :
    AllAccepted (points ++ points') := by
  intro p hp
  rcases List.mem_append.mp hp with hp | hp
  · exact h p hp
  · exact h' p hp

theorem allAccepted_cons (hp : p.Accepted) (h : AllAccepted points) :
    AllAccepted (p :: points) := by
  intro q hq
  rcases List.mem_cons.mp hq with rfl | hq
  · exact fun _ => hp
  · exact h q hq

end AllAccepted

/-! ### Bodies that are not visited -/

mutual

/-- The statements in a statement are visited only if it is. -/
theorem innerPoints_analysed : ∀ (body : BodyContext) (cg : Cg) (s : ASTStmt),
    ∀ p ∈ innerPoints body cg s, p.body.analysed = true → body.analysed = true
  | body, cg, .ifStmt condition thenBranch elseBranch => by
      intro p hp
      rw [innerPoints] at hp
      rcases List.mem_append.mp hp with hp | hp
      · exact bodyPoints_analysed body _ thenBranch p hp
      · exact bodyPoints_analysed body _ elseBranch p hp
  | body, cg, .whileStmt condition stmts => by
      intro p hp
      rw [innerPoints] at hp
      exact bodyPoints_analysed body _ stmts p hp
  | body, cg, .forStmt name range stmts => by
      intro p hp
      rw [innerPoints] at hp
      exact bodyPoints_analysed body _ stmts p hp
  | body, cg, .forIn name iterable stmts => by
      intro p hp
      rw [innerPoints] at hp
      exact bodyPoints_analysed body _ stmts p hp
  | body, cg, .funcDecl decl => by
      intro p hp
      rw [innerPoints] at hp
      rw [← body.inner_analysed decl]
      exact functionPoints_analysed (body.inner decl) cg decl p hp
  | body, cg, .classDecl name parentName fields methods constructor => by
      intro p hp
      rw [innerPoints] at hp
      rcases List.mem_append.mp hp with hp | hp
      · exact fun h => absurd h (methodPoints_not_analysed name _ methods p hp)
      · exact fun h => absurd h (constructorPoints_not_analysed name _ constructor p hp)
  | body, cg, .varDecl _ _ _ _ _ | body, cg, .varAssign _ _ _
  | body, cg, .indexAssign _ _ _ _ | body, cg, .memberAssign _ _ _ _ | body, cg, .print _
  | body, cg, .expr _ | body, cg, .break | body, cg, .continue | body, cg, .structDecl _ _
  | body, cg, .return _ _ | body, cg, .importStmt _ _ _ _ | body, cg, .exportStmt _ _ => by
      intro p hp
      cases (hp : p ∈ [])

theorem bodyPoints_analysed : ∀ (body : BodyContext) (cg : Cg) (stmts : Option (List ASTStmt)),
    ∀ p ∈ bodyPoints body cg stmts, p.body.analysed = true → body.analysed = true
  | body, cg, none => by
      intro p hp
      rw [bodyPoints] at hp
      cases hp
  | body, cg, some stmts => by
      intro p hp
      rw [bodyPoints] at hp
      exact stmtsPoints_analysed body cg stmts p hp

theorem stmtsPoints_analysed : ∀ (body : BodyContext) (cg : Cg) (stmts : List ASTStmt),
    ∀ p ∈ stmtsPoints body cg stmts, p.body.analysed = true → body.analysed = true
  | body, cg, [] => by
      intro p hp
      rw [stmtsPoints] at hp
      cases hp
  | body, cg, s :: stmts => by
      intro p hp
      rw [stmtsPoints] at hp
      rcases List.mem_cons.mp hp with rfl | hp
      · exact id
      rcases List.mem_append.mp hp with hp | hp
      · exact innerPoints_analysed body cg s p hp
      · exact stmtsPoints_analysed body _ stmts p hp

theorem functionPoints_analysed : ∀ (body : BodyContext) (cg : Cg) (decl : ASTFuncDecl ASTStmt),
    ∀ p ∈ functionPoints body cg decl, p.body.analysed = true → body.analysed = true
  | body, cg, ⟨_, _, _, _, stmts⟩ => by
      intro p hp
      rw [functionPoints] at hp
      exact bodyPoints_analysed body _ stmts p hp

theorem methodPoints_not_analysed : ∀ (name : Ident) (cg : Cg)
    (methods : List (ASTFuncDecl ASTStmt)),
    ∀ p ∈ methodPoints name cg methods, ¬ p.body.analysed = true
  | name, cg, [] => by
      intro p hp
      rw [methodPoints] at hp
      cases hp
  | name, cg, decl :: methods => by
      intro p hp
      rw [methodPoints] at hp
      rcases List.mem_append.mp hp with hp | hp
      · exact fun h => Bool.noConfusion (functionPoints_analysed _ cg decl p hp h)
      · exact methodPoints_not_analysed name cg methods p hp

theorem constructorPoints_not_analysed : ∀ (name : Ident) (cg : Cg)
    (constructor : Option (ASTFuncDecl ASTStmt)),
    ∀ p ∈ constructorPoints name cg constructor, ¬ p.body.analysed = true
  | name, cg, none => by
      intro p hp
      rw [constructorPoints] at hp
      cases hp
  | name, cg, some decl => by
      intro p hp
      rw [constructorPoints] at hp
      exact fun h => Bool.noConfusion (functionPoints_analysed _ cg decl p hp h)

end

/-! ### Accepted programs -/

section Accepted

variable {body : BodyContext} {a a' : Cg} {name : Ident}

theorem declared_of_ok {typeDesc : Option TypeDescriptor} {isConst : Bool}
    (h : a.declareVar name typeDesc isConst = .ok a') : a.declared name typeDesc isConst = a' := by
  unfold Cg.declared
  rw [h]
  rfl

/-- The returns of an analysed statement have passed the check of the function
they are in. -/
def ReturnsChecked (body : BodyContext) (s : ASTStmt) : Prop :=
  ∀ decl, body.decl = some decl → Cg.checkReturnsInStmt decl s = .ok ()

def BodyReturnsChecked (body : BodyContext) (stmts : Option (List ASTStmt)) : Prop :=
  ∀ decl, body.decl = some decl → Cg.checkReturnsInBody decl stmts = .ok ()

def AllReturnsChecked (body : BodyContext) (stmts : List ASTStmt) : Prop :=
  ∀ decl, body.decl = some decl → Cg.checkReturnsInStmts decl stmts = .ok ()

section Returns

variable {s : ASTStmt} {stmts : List ASTStmt} {condition : ASTExpr}
  {thenBranch elseBranch : Option (List ASTStmt)}

theorem allReturnsChecked_cons (h : AllReturnsChecked body (s :: stmts)) :
    ReturnsChecked body s ∧ AllReturnsChecked body stmts := by
  constructor
  · intro decl hdecl
    have hcheck := h decl hdecl
    rw [Cg.checkReturnsInStmts] at hcheck
    obtain ⟨u, hs, -⟩ := bind_eq_ok.mp hcheck
    exact hs
  · intro decl hdecl
    have hcheck := h decl hdecl
    rw [Cg.checkReturnsInStmts] at hcheck
    obtain ⟨u, -, hstmts⟩ := bind_eq_ok.mp hcheck
    exact hstmts

theorem returnsChecked_ifStmt
    (h : ReturnsChecked body (.ifStmt condition thenBranch elseBranch)) :
    BodyReturnsChecked body thenBranch ∧ BodyReturnsChecked body elseBranch := by
  constructor
  · intro decl hdecl
    have hcheck := h decl hdecl
    rw [Cg.checkReturnsInStmt] at hcheck
    obtain ⟨u, hthen, -⟩ := bind_eq_ok.mp hcheck
    exact hthen
  · intro decl hdecl
    have hcheck := h decl hdecl
    rw [Cg.checkReturnsInStmt] at hcheck
    obtain ⟨u, -, helse⟩ := bind_eq_ok.mp hcheck
    exact helse

theorem bodyReturnsChecked_some (h : BodyReturnsChecked body (some stmts)) :
    AllReturnsChecked body stmts := by
  intro decl hdecl
  have hcheck := h decl hdecl
  rwa [Cg.checkReturnsInBody] at hcheck

end Returns

/-- An analysis that went through has left the state that the walk computes, and
has checked the places that the walk finds. -/
def Visited (after a' : Cg) (points : List Point) : Prop :=
  after = a' ∧ AllAccepted points

mutual

/-- **An accepted statement**, by induction on the statement. -/
theorem analyzeStmt_visited : ∀ (s : ASTStmt) {body : BodyContext} {a a' : Cg} {s' : ASTStmt},
    (analyzeStmt s).run a = .ok (s', a') → ReturnsChecked body s' →
      AcceptedAt body a s ∧ Visited (afterStmt a s) a' (innerPoints body a s)
  | .varDecl name type typeDesc init isConst, body, a, a', s', h, _ => by
      rw [analyzeStmt] at h
      obtain ⟨initType, declared, hinit, rfl, hdeclare, hcompatible, -⟩ := analyzeVarDecl_ok h
      refine ⟨⟨initType, declared, a', hinit, rfl, hdeclare, hcompatible⟩, ?_, allAccepted_nil⟩
      rw [afterStmt]
      exact declared_of_ok hdeclare
  | .varAssign name value op, body, a, a', s', h, _ => by
      obtain ⟨var, hvar, hconst, htyped, -, rfl⟩ := analyzeStmt_varAssign_ok h
      exact ⟨⟨var, hvar, hconst, htyped⟩, rfl, allAccepted_nil⟩
  | .indexAssign target index value op, body, a, a', s', h, _ => by
      obtain ⟨htarget, hindex, hvalue, -, rfl⟩ := analyzeStmt_indexAssign_ok h
      exact ⟨⟨htarget, hindex, hvalue⟩, rfl, allAccepted_nil⟩
  | .memberAssign target member value op, body, a, a', s', h, _ => by
      obtain ⟨htarget, hvalue, -, rfl⟩ := analyzeStmt_memberAssign_ok h
      exact ⟨⟨htarget, hvalue⟩, rfl, allAccepted_nil⟩
  | .print e, body, a, a', s', h, _ => by
      obtain ⟨he, -, rfl⟩ := analyzeStmt_print_ok h
      exact ⟨he, rfl, allAccepted_nil⟩
  | .expr e, body, a, a', s', h, _ => by
      obtain ⟨he, -, rfl⟩ := analyzeStmt_expr_ok h
      exact ⟨he, rfl, allAccepted_nil⟩
  | .ifStmt condition thenBranch elseBranch, body, a, a', s', h, hreturns => by
      obtain ⟨hcondition, thenBranch', a₁, hthen, helse⟩ := analyzeStmt_ifStmt_ok h
      refine ⟨hcondition, ?_⟩
      rw [afterStmt, innerPoints]
      rcases helse with ⟨rfl, rfl, rfl⟩ | ⟨stmts, stmts', a₂, rfl, helse, rfl, rfl⟩
      · obtain ⟨hthenReturns, -⟩ := returnsChecked_ifStmt hreturns
        obtain ⟨rfl, hthenPoints⟩ := analyzeBody_visited thenBranch hthen hthenReturns
        exact ⟨by rw [afterElse], allAccepted_append hthenPoints allAccepted_nil⟩
      · obtain ⟨hthenReturns, helseReturns⟩ := returnsChecked_ifStmt hreturns
        obtain ⟨rfl, hthenPoints⟩ := analyzeBody_visited thenBranch hthen hthenReturns
        obtain ⟨rfl, helsePoints⟩ :=
          analyzeStmts_visited stmts helse (bodyReturnsChecked_some helseReturns)
        exact ⟨by rw [afterElse], allAccepted_append hthenPoints helsePoints⟩
  | .whileStmt condition stmts, body, a, a', s', h, hreturns => by
      obtain ⟨hcondition, body', a₁, hbody, rfl, rfl⟩ := analyzeStmt_whileStmt_ok h
      obtain ⟨rfl, hpoints⟩ := analyzeBody_visited stmts hbody hreturns
      exact ⟨hcondition, by rw [afterStmt], by rwa [innerPoints]⟩
  | .forStmt name range stmts, body, a, a', s', h, hreturns => by
      obtain ⟨hrange, a₁, body', a₂, hdeclare, hbody, rfl, rfl⟩ := analyzeStmt_forStmt_ok h
      obtain ⟨rfl, hpoints⟩ := analyzeBody_visited stmts hbody hreturns
      rw [← declared_of_ok hdeclare] at hpoints ⊢
      exact ⟨hrange, by rw [afterStmt], by rwa [innerPoints]⟩
  | .forIn name iterable stmts, body, a, a', s', h, hreturns => by
      obtain ⟨hiterable, element, a₁, body', a₂, helement, hdeclare, hbody, rfl, rfl⟩ :=
        analyzeStmt_forIn_ok h
      obtain ⟨rfl, hpoints⟩ := analyzeBody_visited stmts hbody hreturns
      rw [← helement] at hdeclare
      rw [← declared_of_ok hdeclare] at hpoints ⊢
      exact ⟨hiterable, by rw [afterStmt], by rwa [innerPoints]⟩
  | .funcDecl decl, body, a, a', s', h, _ => absurd h analyzeStmt_funcDecl_ne_ok
  | .structDecl name fields, body, a, a', s', h, _ => by
      obtain ⟨hdeclare, -⟩ := analyzeStmt_structDecl_ok h
      refine ⟨trivial, ?_, allAccepted_nil⟩
      rw [afterStmt, hdeclare]
      rfl
  | .classDecl name parentName fields methods constructor, body, a, a', s', h, _ => by
      obtain ⟨hdeclare, -⟩ := analyzeStmt_classDecl_ok h
      refine ⟨trivial, ?_, ?_⟩
      · rw [afterStmt, hdeclare]
        rfl
      · -- the analysis does not look at the methods
        rw [innerPoints]
        intro p hp hanalysed
        rcases List.mem_append.mp hp with hp | hp
        · exact absurd hanalysed (methodPoints_not_analysed name _ methods p hp)
        · exact absurd hanalysed (constructorPoints_not_analysed name _ constructor p hp)
  | .return e tag, body, a, a', s', h, hreturns => by
      obtain ⟨t, ht, rfl, rfl⟩ := analyzeStmt_return_ok h
      exact ⟨⟨t, ht, hreturns⟩, rfl, allAccepted_nil⟩
  | .break, body, a, a', s', h, _ | .continue, body, a, a', s', h, _
  | .importStmt _ _ _ _, body, a, a', s', h, _ | .exportStmt _ _, body, a, a', s', h, _ => by
      obtain ⟨-, rfl⟩ := run_pure_eq_ok.mp h
      exact ⟨trivial, rfl, allAccepted_nil⟩

theorem analyzeBody_visited : ∀ (stmts : Option (List ASTStmt)) {body : BodyContext} {a a' : Cg}
    {stmts' : Option (List ASTStmt)},
    (analyzeBody stmts).run a = .ok (stmts', a') → BodyReturnsChecked body stmts' →
      Visited (afterBody a stmts) a' (bodyPoints body a stmts)
  | none, body, a, a', stmts', h, _ => by
      rw [analyzeBody] at h
      obtain ⟨-, rfl⟩ := run_pure_eq_ok.mp h
      exact ⟨rfl, allAccepted_nil⟩
  | some stmts, body, a, a', stmts', h, hreturns => by
      obtain ⟨ts, hstmts, rfl⟩ := analyzeBody_some_ok h
      rw [afterBody, bodyPoints]
      exact analyzeStmts_visited stmts hstmts (bodyReturnsChecked_some hreturns)

theorem analyzeStmts_visited : ∀ (stmts : List ASTStmt) {body : BodyContext} {a a' : Cg}
    {stmts' : List ASTStmt},
    (analyzeStmts stmts).run a = .ok (stmts', a') → AllReturnsChecked body stmts' →
      Visited (afterStmts a stmts) a' (stmtsPoints body a stmts)
  | [], body, a, a', stmts', h, _ => by
      rw [analyzeStmts] at h
      obtain ⟨-, rfl⟩ := run_pure_eq_ok.mp h
      exact ⟨rfl, allAccepted_nil⟩
  | s :: stmts, body, a, a', stmts', h, hreturns => by
      obtain ⟨t, a₁, ts, hs, hstmts, rfl⟩ := analyzeStmts_cons_ok h
      obtain ⟨htReturns, htsReturns⟩ := allReturnsChecked_cons hreturns
      obtain ⟨haccepted, rfl, hinner⟩ := analyzeStmt_visited s hs htReturns
      obtain ⟨rfl, hrest⟩ := analyzeStmts_visited stmts hstmts htsReturns
      rw [afterStmts, stmtsPoints]
      exact ⟨rfl, allAccepted_cons haccepted (allAccepted_append hinner hrest)⟩

end

/-! ### Functions and programs -/

theorem declareParams_ok {params : List ASTParam} {u : Unit}
    (h : (declareParams params).run a = .ok (u, a')) : a.declaredParams params = a' := by
  induction params generalizing a with
  | nil =>
      obtain ⟨-, rfl⟩ := run_pure_eq_ok.mp h
      rfl
  | cons p params ih =>
      obtain ⟨a₁, hdeclare, hparams⟩ := run_updates_bind_eq_ok.mp h
      have hrest := ih hparams
      rw [← declared_of_ok hdeclare] at hrest
      exact hrest

theorem analyzeFunctionStmts_visited {decl : FuncDecl} (hdecl : body.decl = some decl)
    {stmts stmts' : List ASTStmt}
    (h : (analyzeFunctionStmts decl stmts).run a = .ok (stmts', a')) :
    Visited (afterStmts a stmts) a' (stmtsPoints body a stmts) := by
  induction stmts generalizing a stmts' with
  | nil =>
      obtain ⟨-, rfl⟩ := run_pure_eq_ok.mp h
      exact ⟨rfl, allAccepted_nil⟩
  | cons s stmts ih =>
      rw [analyzeFunctionStmts] at h
      obtain ⟨t, a₁, hs, h⟩ := run_bind_eq_ok.mp h
      obtain ⟨u, hreturns, h⟩ := run_reads_bind_eq_ok.mp h
      obtain ⟨ts, a₂, hstmts, h⟩ := run_bind_eq_ok.mp h
      obtain ⟨-, rfl⟩ := run_pure_eq_ok.mp h
      have hchecked : ReturnsChecked body t := by
        intro decl' hdecl'
        rw [hdecl] at hdecl'
        cases hdecl'
        exact hreturns
      obtain ⟨haccepted, rfl, hinner⟩ := analyzeStmt_visited s hs hchecked
      obtain ⟨rfl, hrest⟩ := ih hstmts
      rw [afterStmts, stmtsPoints]
      exact ⟨rfl, allAccepted_cons haccepted (allAccepted_append hinner hrest)⟩

theorem analyzeFunction_visited {decl decl' : FuncDecl} (hdecl : body.decl = some decl)
    (h : (analyzeFunction decl).run a = .ok (decl', a')) :
    Visited (afterFunction a decl) a' (functionPoints body a decl) := by
  unfold analyzeFunction at h
  rw [run_modify_bind_eq_ok] at h
  obtain ⟨u, a₁, hparams, h⟩ := run_bind_eq_ok.mp h
  obtain ⟨stmts', a₂, hstmts, h⟩ := run_bind_eq_ok.mp h
  obtain ⟨u, -, h⟩ := run_reads_bind_eq_ok.mp h
  rw [run_modify_bind_eq_ok] at h
  obtain ⟨-, rfl⟩ := run_pure_eq_ok.mp h
  obtain ⟨rfl, hpoints⟩ := analyzeFunctionStmts_visited hdecl hstmts
  rw [← declareParams_ok hparams] at hpoints ⊢
  obtain ⟨name, params, returnType, returnTypeDesc, stmts⟩ := decl
  rw [afterFunction, functionPoints]
  cases stmts with
  | none => exact ⟨rfl, allAccepted_nil⟩
  | some stmts => exact ⟨rfl, hpoints⟩

theorem analyzeProgram_visited {program program' : ASTStmtList}
    (h : (analyzeProgram program).run a = .ok (program', a')) :
    Visited (afterStmts a program) a' (stmtsPoints .topLevel a program) := by
  induction program generalizing a program' with
  | nil =>
      obtain ⟨-, rfl⟩ := run_pure_eq_ok.mp h
      exact ⟨rfl, allAccepted_nil⟩
  | cons s program ih =>
      rw [afterStmts, stmtsPoints]
      by_cases hfunction : ∃ decl, s = .funcDecl decl
      · obtain ⟨decl, rfl⟩ := hfunction
        rw [analyzeProgram] at h
        obtain ⟨decl', a₁, hdecl, h⟩ := run_bind_eq_ok.mp h
        obtain ⟨program', a₂, hprogram, h⟩ := run_bind_eq_ok.mp h
        obtain ⟨-, rfl⟩ := run_pure_eq_ok.mp h
        have hbody : (BodyContext.topLevel.inner decl).decl = some decl := rfl
        obtain ⟨rfl, hinner⟩ := analyzeFunction_visited hbody hdecl
        obtain ⟨rfl, hrest⟩ := ih hprogram
        rw [afterStmt, innerPoints]
        exact ⟨rfl, allAccepted_cons trivial (allAccepted_append hinner hrest)⟩
      · rw [analyzeProgram] at h
        · obtain ⟨t, a₁, hs, h⟩ := run_bind_eq_ok.mp h
          obtain ⟨program', a₂, hprogram, h⟩ := run_bind_eq_ok.mp h
          obtain ⟨-, rfl⟩ := run_pure_eq_ok.mp h
          have hreturns : ReturnsChecked .topLevel t := by
            intro decl hdecl
            cases hdecl
          obtain ⟨haccepted, rfl, hinner⟩ := analyzeStmt_visited s hs hreturns
          obtain ⟨rfl, hrest⟩ := ih hprogram
          exact ⟨rfl, allAccepted_cons haccepted (allAccepted_append hinner hrest)⟩
        · exact fun decl hs => hfunction ⟨decl, hs⟩

/-- **An accepted program** has passed the checks at every place that the analysis
visits. -/
theorem semanticAnalyze_accepted {program program' : ASTStmtList}
    (h : semanticAnalyze .init program = .ok (program', a')) :
    AllAccepted (programPoints program) := by
  unfold semanticAnalyze at h
  obtain ⟨u, a₁, hfunctions, hprogram⟩ := run_bind_eq_ok.mp h
  have hstart : Cg.init.declaredFunctions program = a₁ := by
    unfold Cg.declaredFunctions
    have hrun : (declareFunctions program).run .init = .ok (u, a₁) := hfunctions
    rw [hrun]
    rfl
  unfold programPoints
  rw [hstart]
  exact (analyzeProgram_visited hprogram).2

end Accepted

end BreadLang
