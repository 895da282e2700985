import BreadLang.Codegen.Semantic

/-!
# What the semantic analysis leaves behind

An analysis that succeeds leaves the tables of the generator in a known state.
The facts here say what it does to the table of functions: the first pass adds
an entry without an LLVM function for every function of the program, and the
second pass does not touch the table.
-/

namespace BreadLang

namespace Analyze

variable {α β : Type} {I : Cg → Prop}

/-- **An analysis keeps an invariant** when it holds after every successful run
that starts with it. -/
def Keeps (I : Cg → Prop) (m : Analyze α) : Prop :=
  ∀ cg a cg', m.run cg = .ok (a, cg') → I cg → I cg'

theorem keeps_pure (a : α) : Keeps I (pure a : Analyze α) := by
  intro cg a' cg' h hI
  cases h
  exact hI

theorem keeps_bind {m : Analyze α} {f : α → Analyze β} (hm : Keeps I m)
    (hf : ∀ a, Keeps I (f a)) : Keeps I (m >>= f) := by
  intro cg b cg'' h hI
  rw [StateT.run_bind] at h
  obtain ⟨⟨a, cg'⟩, hfirst, hsecond⟩ := bind_eq_ok.mp h
  exact hf a _ _ _ hsecond (hm _ _ _ hfirst hI)

theorem keeps_map {f : α → β} {m : Analyze α} (hm : Keeps I m) : Keeps I (f <$> m) := by
  rw [map_eq_pure_bind]
  exact keeps_bind hm fun a => keeps_pure _

theorem keeps_get : Keeps I (get : Analyze Cg) := by
  intro cg a cg' h hI
  cases h
  exact hI

theorem keeps_modify {f : Cg → Cg} (h : ∀ cg, I cg → I (f cg)) :
    Keeps I (modify f : Analyze Unit) := by
  intro cg a cg' hrun hI
  cases hrun
  exact h cg hI

theorem keeps_reads (f : Cg → CgResult α) : Keeps I (reads f) := by
  intro cg a cg' h hI
  unfold reads at h
  rw [StateT.run_bind] at h
  obtain ⟨⟨s, t⟩, hget, hrest⟩ := bind_eq_ok.mp h
  cases hget
  obtain ⟨r, -, hr⟩ := bind_eq_ok.mp hrest
  cases hr
  exact hI

theorem run_updates {f : Cg → CgResult Cg} {cg cg' : Cg}
    (h : (updates f).run cg = .ok ((), cg')) : f cg = .ok cg' := by
  unfold updates at h
  rw [StateT.run_bind] at h
  obtain ⟨⟨s, t⟩, hget, hrest⟩ := bind_eq_ok.mp h
  cases hget
  rw [StateT.run_bind] at hrest
  obtain ⟨⟨r, t⟩, hlift, hset⟩ := bind_eq_ok.mp hrest
  obtain ⟨r', hr, hr'⟩ := bind_eq_ok.mp hlift
  cases hr'
  cases hset
  exact hr

theorem keeps_updates {f : Cg → CgResult Cg}
    (h : ∀ cg cg', f cg = .ok cg' → I cg → I cg') : Keeps I (updates f) :=
  fun cg _ cg' hrun hI => h cg cg' (run_updates hrun) hI

/-- What a successful run of an analysis returns. -/
def Returns (P : α → Prop) (m : Analyze α) : Prop :=
  ∀ cg a cg', m.run cg = .ok (a, cg') → P a

theorem returns_pure {P : α → Prop} {a : α} (h : P a) : Returns P (pure a : Analyze α) := by
  intro cg a' cg' hrun
  cases hrun
  exact h

theorem returns_bind {P : β → Prop} {m : Analyze α} {f : α → Analyze β}
    (hf : ∀ a, Returns P (f a)) : Returns P (m >>= f) := by
  intro cg b cg'' h
  rw [StateT.run_bind] at h
  obtain ⟨⟨a, cg'⟩, -, hsecond⟩ := bind_eq_ok.mp h
  exact hf a _ _ _ hsecond

/-- The rule for a sequence whose second part depends on what the first
returns. -/
theorem returns_bind_of {P : α → Prop} {Q : β → Prop} {m : Analyze α} {f : α → Analyze β}
    (hm : Returns P m) (hf : ∀ a, P a → Returns Q (f a)) : Returns Q (m >>= f) := by
  intro cg b cg'' h
  rw [StateT.run_bind] at h
  obtain ⟨⟨a, cg'⟩, hfirst, hsecond⟩ := bind_eq_ok.mp h
  exact hf a (hm _ _ _ hfirst) _ _ _ hsecond

theorem returns_error {P : α → Prop} {message : String} {name : Option Ident} :
    Returns P (reads fun _ => cgError message name) := by
  intro cg a cg' h
  cases h

/-- An invariant of the state that the declarations of variables, structs and
classes and the changes of scope keep. -/
structure Stable (I : Cg → Prop) : Prop where
  enterScope : ∀ cg, I cg → I cg.enterScope
  leaveScope : ∀ cg, I cg → I cg.leaveScope
  declareVar : ∀ cg cg' name typeDesc isConst,
    cg.declareVar name typeDesc isConst = .ok cg' → I cg → I cg'
  declareStruct : ∀ cg cg' name fields,
    cg.declareStructFromAst name fields = .ok cg' → I cg → I cg'
  declareClass : ∀ cg cg' name parentName fields methods constructor,
    cg.declareClassFromAst name parentName fields methods constructor = .ok cg' →
      I cg → I cg'

section Statements

theorem analyzeVarDecl_keeps (hI : Stable I) (name : Ident) (type : VarType)
    (typeDesc : Option TypeDescriptor) (init : ASTExpr) (isConst : Bool) :
    Keeps I (analyzeVarDecl name type typeDesc init isConst) := by
  unfold analyzeVarDecl
  refine keeps_bind (keeps_reads _) fun initType => ?_
  split
  · exact keeps_reads _
  · refine keeps_bind keeps_get fun cg => ?_
    refine keeps_bind (keeps_updates fun cg cg' => hI.declareVar cg cg' _ _ _) fun _ => ?_
    split
    · split
      · exact keeps_bind (keeps_reads _) fun _ => keeps_pure _
      · exact keeps_pure _
    · exact keeps_pure _

theorem checkAssignedType_keeps (value : ASTExpr) (var : CgVar) :
    Keeps I (checkAssignedType value var) := by
  unfold checkAssignedType
  refine keeps_bind (keeps_reads _) fun valueType => ?_
  split
  · split
    · exact keeps_reads _
    · exact keeps_pure _
  · exact keeps_pure _

theorem analyzeVarAssign_keeps (name : Ident) (value : ASTExpr) :
    Keeps I (analyzeVarAssign name value) := by
  unfold analyzeVarAssign
  refine keeps_bind keeps_get fun cg => ?_
  split
  · exact keeps_reads _
  · split
    · exact keeps_bind (keeps_reads _) fun _ => checkAssignedType_keeps value _
    · exact checkAssignedType_keeps value _

theorem declareLoopVar_keeps (hI : Stable I) (name : Ident) (iterable : ASTExpr) :
    Keeps I (declareLoopVar name iterable) := by
  unfold declareLoopVar
  refine keeps_bind (keeps_reads _) fun iterableType => ?_
  split
  · exact keeps_reads _
  · exact keeps_updates fun cg cg' => hI.declareVar cg cg' _ _ _

mutual

/-- Analysing a statement keeps a stable invariant, by induction on the
statement. -/
theorem analyzeStmt_keeps (hI : Stable I) : ∀ s : ASTStmt, Keeps I (analyzeStmt s)
  | .varDecl name type typeDesc init isConst => by
      unfold analyzeStmt
      exact analyzeVarDecl_keeps hI name type typeDesc init isConst
  | .varAssign name value op => by
      unfold analyzeStmt
      exact keeps_bind (analyzeVarAssign_keeps name value) fun _ => keeps_pure _
  | .indexAssign target index value op => by
      unfold analyzeStmt
      exact keeps_bind (keeps_reads _) fun _ => keeps_bind (keeps_reads _) fun _ =>
        keeps_bind (keeps_reads _) fun _ => keeps_pure _
  | .memberAssign target member value op => by
      unfold analyzeStmt
      exact keeps_bind (keeps_reads _) fun _ => keeps_bind (keeps_reads _) fun _ => keeps_pure _
  | .print e => by
      unfold analyzeStmt
      exact keeps_bind (keeps_reads _) fun _ => keeps_pure _
  | .expr e => by
      unfold analyzeStmt
      exact keeps_bind (keeps_reads _) fun _ => keeps_pure _
  | .ifStmt condition thenBranch elseBranch => by
      unfold analyzeStmt
      refine keeps_bind (keeps_reads _) fun _ => keeps_bind (keeps_reads _) fun _ => ?_
      refine keeps_bind (keeps_modify hI.enterScope) fun _ => ?_
      refine keeps_bind (analyzeBody_keeps hI thenBranch) fun _ => ?_
      refine keeps_bind (keeps_modify hI.leaveScope) fun _ => ?_
      cases elseBranch with
      | none => exact keeps_pure _
      | some stmts =>
          exact keeps_bind (keeps_modify hI.enterScope) fun _ =>
            keeps_bind (analyzeStmts_keeps hI stmts) fun _ =>
              keeps_bind (keeps_modify hI.leaveScope) fun _ => keeps_pure _
  | .whileStmt condition body => by
      unfold analyzeStmt
      exact keeps_bind (keeps_reads _) fun _ => keeps_bind (keeps_reads _) fun _ =>
        keeps_bind (keeps_modify hI.enterScope) fun _ =>
          keeps_bind (analyzeBody_keeps hI body) fun _ =>
            keeps_bind (keeps_modify hI.leaveScope) fun _ => keeps_pure _
  | .forStmt name rangeExpr body => by
      unfold analyzeStmt
      exact keeps_bind (keeps_reads _) fun _ =>
        keeps_bind (keeps_modify hI.enterScope) fun _ =>
          keeps_bind (keeps_updates fun cg cg' => hI.declareVar cg cg' _ _ _) fun _ =>
            keeps_bind (analyzeBody_keeps hI body) fun _ =>
              keeps_bind (keeps_modify hI.leaveScope) fun _ => keeps_pure _
  | .forIn name iterable body => by
      unfold analyzeStmt
      exact keeps_bind (keeps_reads _) fun _ =>
        keeps_bind (keeps_modify hI.enterScope) fun _ =>
          keeps_bind (declareLoopVar_keeps hI name iterable) fun _ =>
            keeps_bind (analyzeBody_keeps hI body) fun _ =>
              keeps_bind (keeps_modify hI.leaveScope) fun _ => keeps_pure _
  | .break => by
      unfold analyzeStmt
      exact keeps_pure _
  | .continue => by
      unfold analyzeStmt
      exact keeps_pure _
  | .funcDecl decl => by
      unfold analyzeStmt
      exact keeps_reads _
  | .structDecl name fields => by
      unfold analyzeStmt
      exact keeps_bind (keeps_updates fun cg cg' => hI.declareStruct cg cg' _ _) fun _ =>
        keeps_pure _
  | .classDecl name parentName fields methods constructor => by
      unfold analyzeStmt
      exact keeps_bind (keeps_updates fun cg cg' => hI.declareClass cg cg' _ _ _ _ _) fun _ =>
        keeps_pure _
  | .return e tag => by
      unfold analyzeStmt
      exact keeps_bind (keeps_reads _) fun _ => keeps_pure _
  | .importStmt _ _ _ _ => by
      unfold analyzeStmt
      exact keeps_pure _
  | .exportStmt _ _ => by
      unfold analyzeStmt
      exact keeps_pure _

theorem analyzeBody_keeps (hI : Stable I) :
    ∀ body : Option (List ASTStmt), Keeps I (analyzeBody body)
  | none => by
      unfold analyzeBody
      exact keeps_pure _
  | some stmts => by
      unfold analyzeBody
      exact keeps_bind (analyzeStmts_keeps hI stmts) fun _ => keeps_pure _

theorem analyzeStmts_keeps (hI : Stable I) :
    ∀ stmts : List ASTStmt, Keeps I (analyzeStmts stmts)
  | [] => by
      unfold analyzeStmts
      exact keeps_pure _
  | s :: stmts => by
      unfold analyzeStmts
      exact keeps_bind (analyzeStmt_keeps hI s) fun _ =>
        keeps_bind (analyzeStmts_keeps hI stmts) fun _ => keeps_pure _

end

theorem declareParams_keeps (hI : Stable I) (params : List ASTParam) : Keeps I (declareParams params) := by
  induction params with
  | nil => exact keeps_pure _
  | cons p params ih =>
      exact keeps_bind (keeps_updates fun cg cg' => hI.declareVar cg cg' _ _ _) fun _ => ih

theorem analyzeFunctionStmts_keeps (hI : Stable I) (decl : FuncDecl)
    (stmts : List ASTStmt) : Keeps I (analyzeFunctionStmts decl stmts) := by
  induction stmts with
  | nil => exact keeps_pure _
  | cons s stmts ih =>
      exact keeps_bind (analyzeStmt_keeps hI s) fun _ => keeps_bind (keeps_reads _) fun _ =>
        keeps_bind ih fun _ => keeps_pure _

theorem analyzeFunction_keeps (hI : Stable I) (decl : FuncDecl) :
    Keeps I (analyzeFunction decl) := by
  unfold analyzeFunction
  exact keeps_bind (keeps_modify hI.enterScope) fun _ =>
    keeps_bind (declareParams_keeps hI _) fun _ =>
      keeps_bind (analyzeFunctionStmts_keeps hI decl _) fun _ =>
        keeps_bind (keeps_reads _) fun _ =>
          keeps_bind (keeps_modify hI.leaveScope) fun _ => keeps_pure _

/-- The second pass keeps a stable invariant. -/
theorem analyzeProgram_keeps (hI : Stable I) (program : ASTStmtList) :
    Keeps I (analyzeProgram program) := by
  induction program with
  | nil => exact keeps_pure _
  | cons s program ih =>
      cases s with
      | funcDecl decl =>
          exact keeps_bind (analyzeFunction_keeps hI decl) fun _ => keeps_bind ih fun _ =>
            keeps_pure _
      | _ =>
          exact keeps_bind (analyzeStmt_keeps hI _) fun _ => keeps_bind ih fun _ =>
            keeps_pure _

end Statements

/-! ### The table of functions -/

/-- The second pass touches neither the table of functions nor the trace. -/
theorem stable_functions (functions : List CgFunction) (trace : List CgEvent) :
    Stable fun cg => cg.functions = functions ∧ cg.trace = trace where
  enterScope := fun _ h => h
  leaveScope := fun _ h => h
  declareVar := by
    intro cg cg' name typeDesc isConst hrun h
    unfold Cg.declareVar at hrun
    split at hrun
    · cases hrun
    · cases typeDesc with
      | none => cases hrun
      | some d =>
          cases hrun
          exact h
  declareStruct := by
    intro cg cg' name fields hrun h
    unfold Cg.declareStructFromAst at hrun
    split at hrun <;> cases hrun
    exact h
  declareClass := by
    intro cg cg' name parentName fields methods constructor hrun h
    unfold Cg.declareClassFromAst at hrun
    split at hrun <;> cases hrun
    exact h

/-- The name of the function that a statement declares. -/
def declaredName : ASTStmt → Option Ident
  | .funcDecl decl => some decl.name
  | _ => none

/-- The names of the functions that a program declares at top level. -/
def declaredNames (program : ASTStmtList) : List Ident :=
  program.filterMap declaredName

/-- The analysis does not turn a statement into the declaration of a function. -/
theorem analyzeStmt_declaredName (s : ASTStmt) :
    Returns (fun s' => declaredName s' = declaredName s) (analyzeStmt s) := by
  cases s with
  | varDecl name type typeDesc init isConst =>
      unfold analyzeStmt analyzeVarDecl
      refine returns_bind fun initType => ?_
      split
      · exact returns_error
      · refine returns_bind fun cg => returns_bind fun _ => ?_
        split
        · split
          · exact returns_bind fun _ => returns_pure rfl
          · exact returns_pure rfl
        · exact returns_pure rfl
  | varAssign name value op =>
      unfold analyzeStmt
      exact returns_bind fun _ => returns_pure rfl
  | indexAssign target index value op =>
      unfold analyzeStmt
      exact returns_bind fun _ => returns_bind fun _ => returns_bind fun _ => returns_pure rfl
  | memberAssign target member value op =>
      unfold analyzeStmt
      exact returns_bind fun _ => returns_bind fun _ => returns_pure rfl
  | print e =>
      unfold analyzeStmt
      exact returns_bind fun _ => returns_pure rfl
  | expr e =>
      unfold analyzeStmt
      exact returns_bind fun _ => returns_pure rfl
  | ifStmt condition thenBranch elseBranch =>
      unfold analyzeStmt
      refine returns_bind fun _ => returns_bind fun _ => returns_bind fun _ => ?_
      refine returns_bind fun _ => returns_bind fun _ => ?_
      cases elseBranch with
      | none => exact returns_pure rfl
      | some stmts =>
          exact returns_bind fun _ => returns_bind fun _ => returns_bind fun _ =>
            returns_pure rfl
  | whileStmt condition body =>
      unfold analyzeStmt
      exact returns_bind fun _ => returns_bind fun _ => returns_bind fun _ =>
        returns_bind fun _ => returns_bind fun _ => returns_pure rfl
  | forStmt name rangeExpr body =>
      unfold analyzeStmt
      exact returns_bind fun _ => returns_bind fun _ => returns_bind fun _ =>
        returns_bind fun _ => returns_bind fun _ => returns_pure rfl
  | forIn name iterable body =>
      unfold analyzeStmt
      exact returns_bind fun _ => returns_bind fun _ => returns_bind fun _ =>
        returns_bind fun _ => returns_bind fun _ => returns_pure rfl
  | funcDecl decl =>
      unfold analyzeStmt
      exact returns_error
  | structDecl name fields =>
      unfold analyzeStmt
      exact returns_bind fun _ => returns_pure rfl
  | classDecl name parentName fields methods constructor =>
      unfold analyzeStmt
      exact returns_bind fun _ => returns_pure rfl
  | «return» e tag =>
      unfold analyzeStmt
      exact returns_bind fun _ => returns_pure rfl
  | «break» => exact returns_pure rfl
  | «continue» => exact returns_pure rfl
  | importStmt modulePath moduleAlias isSelective symbols => exact returns_pure rfl
  | exportStmt isDefault symbols => exact returns_pure rfl

theorem analyzeFunction_name (decl : FuncDecl) :
    Returns (fun decl' => decl'.name = decl.name) (analyzeFunction decl) := by
  unfold analyzeFunction
  exact returns_bind fun _ => returns_bind fun _ => returns_bind fun _ => returns_bind fun _ =>
    returns_bind fun _ => returns_pure rfl

/-- The analysed program declares the functions of the program, at the same
places. -/
theorem analyzeProgram_declaredName (program : ASTStmtList) :
    Returns (fun program' => program'.map declaredName = program.map declaredName)
      (analyzeProgram program) := by
  induction program with
  | nil => exact returns_pure rfl
  | cons s program ih =>
      cases s with
      | funcDecl decl =>
          refine returns_bind_of (analyzeFunction_name decl) fun decl' hdecl => ?_
          refine returns_bind_of ih fun program' hprogram => returns_pure ?_
          exact congrArg₂ List.cons (congrArg some hdecl) hprogram
      | _ =>
          refine returns_bind_of (analyzeStmt_declaredName _) fun s' hs => ?_
          exact returns_bind_of ih fun program' hprogram =>
            returns_pure (congrArg₂ List.cons hs hprogram)

/-- The names depend on where functions are declared only. -/
theorem declaredNames_eq (program : ASTStmtList) :
    declaredNames program = (program.map declaredName).filterMap id := by
  rw [List.filterMap_map]
  rfl

/-- A table of functions as the first pass leaves it: no entry has an LLVM
function. -/
structure Predeclared (names : List Ident) (cg : Cg) : Prop where
  names_eq : cg.functions.map CgFunction.name = names
  unset : ∀ f ∈ cg.functions, f.fn = none
  trace_eq : cg.trace = []

theorem declareFunctionFromAst_spec {decl : FuncDecl} {names : List Ident} {cg cg' : Cg}
    (h : cg.declareFunctionFromAst decl = .ok cg') (hcg : Predeclared names cg) :
    Predeclared (decl.name :: names) cg' := by
  unfold Cg.declareFunctionFromAst at h
  split at h
  · cases h
  · cases h
    refine ⟨?_, ?_, hcg.trace_eq⟩
    · rw [List.map_cons, hcg.names_eq]
    · intro f hf
      rcases List.mem_cons.mp hf with rfl | hf
      · rfl
      · exact hcg.unset f hf

/-- The first pass prepends an entry for each function. -/
theorem declareFunctions_spec (program : ASTStmtList) {names : List Ident} {cg cg' : Cg}
    (h : (declareFunctions program).run cg = .ok ((), cg')) (hcg : Predeclared names cg) :
    Predeclared ((declaredNames program).reverse ++ names) cg' := by
  induction program generalizing names cg with
  | nil =>
      cases h
      exact hcg
  | cons s program ih =>
      cases s with
      | funcDecl decl =>
          unfold declareFunctions at h
          rw [StateT.run_bind] at h
          obtain ⟨⟨u, cg₁⟩, hfirst, hrest⟩ := bind_eq_ok.mp h
          have hcg₁ := declareFunctionFromAst_spec (run_updates hfirst) hcg
          have hnames := ih hrest hcg₁
          simpa [declaredNames, declaredName] using hnames
      | _ => exact ih h hcg

/-- **An accepted program** leaves the table with an entry for each function, the
last one first, and its functions are declared where they were. -/
theorem semanticAnalyze_spec {program program' : ASTStmtList} {cg : Cg}
    (h : semanticAnalyze .init program = .ok (program', cg)) :
    Predeclared (declaredNames program).reverse cg ∧
      program'.map declaredName = program.map declaredName := by
  unfold semanticAnalyze at h
  rw [StateT.run_bind] at h
  obtain ⟨⟨u, cg₁⟩, hfirst, hsecond⟩ := bind_eq_ok.mp h
  have hempty : Predeclared [] { Cg.init with scopeDepth := 0, globalVars := [] } :=
    ⟨rfl, by simp [Cg.init], rfl⟩
  have hcg₁ := declareFunctions_spec program hfirst hempty
  rw [List.append_nil] at hcg₁
  have hstable := stable_functions cg₁.functions cg₁.trace
  obtain ⟨hfunctions, htrace⟩ := analyzeProgram_keeps hstable program _ _ _ hsecond ⟨rfl, rfl⟩
  refine ⟨⟨?_, ?_, ?_⟩, analyzeProgram_declaredName program _ _ _ hsecond⟩
  · rw [hfunctions]
    exact hcg₁.names_eq
  · rw [hfunctions]
    exact hcg₁.unset
  · rw [htrace]
    exact hcg₁.trace_eq

end Analyze

end BreadLang
