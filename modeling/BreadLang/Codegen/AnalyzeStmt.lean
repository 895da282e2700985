import BreadLang.Codegen.SemanticFacts

/-!
# What an accepted statement is

The inversion of `cg_analyze_stmt`: for each form of statement, what has been
checked when the analysis accepts it, the state in which each part has been
analysed, and the state and the statement that come out.
-/

namespace BreadLang

namespace Analyze

variable {α β : Type} {a a' : Cg}

/-! ### Runs -/

theorem run_bind_eq_ok {m : Analyze α} {f : α → Analyze β} {r : β × Cg} :
    (m >>= f).run a = .ok r ↔ ∃ x a', m.run a = .ok (x, a') ∧ (f x).run a' = .ok r := by
  rw [StateT.run_bind, bind_eq_ok]
  constructor
  · rintro ⟨⟨x, a'⟩, hm, hf⟩
    exact ⟨x, a', hm, hf⟩
  · rintro ⟨x, a', hm, hf⟩
    exact ⟨⟨x, a'⟩, hm, hf⟩

theorem run_pure_eq_ok {x y : α} : (pure x : Analyze α).run a = .ok (y, a') ↔ x = y ∧ a = a' := by
  rw [StateT.run_pure]
  constructor
  · intro h
    cases h
    exact ⟨rfl, rfl⟩
  · rintro ⟨rfl, rfl⟩
    rfl

theorem run_reads_eq_ok {f : Cg → CgResult α} {x : α} :
    (reads f).run a = .ok (x, a') ↔ f a = .ok x ∧ a = a' := by
  unfold reads
  rw [run_bind_eq_ok]
  constructor
  · rintro ⟨s, t, hget, hlift⟩
    cases hget
    obtain ⟨r, hr, hpure⟩ := bind_eq_ok.mp hlift
    cases hpure
    exact ⟨hr, rfl⟩
  · rintro ⟨hx, rfl⟩
    exact ⟨a, a, rfl, bind_eq_ok.mpr ⟨x, hx, rfl⟩⟩

theorem run_updates_eq_ok {f : Cg → CgResult Cg} {u : Unit} :
    (updates f).run a = .ok (u, a') ↔ f a = .ok a' := by
  refine ⟨run_updates, fun h => ?_⟩
  unfold updates
  rw [run_bind_eq_ok]
  refine ⟨a, a, rfl, run_bind_eq_ok.mpr ⟨a', a, ?_, rfl⟩⟩
  exact bind_eq_ok.mpr ⟨a', h, rfl⟩

theorem run_modify_eq_ok {f : Cg → Cg} {u : Unit} :
    (modify f : Analyze Unit).run a = .ok (u, a') ↔ f a = a' := by
  constructor
  · intro h
    cases h
    rfl
  · rintro rfl
    rfl

theorem run_get_eq_ok {s : Cg} :
    (get : Analyze Cg).run a = .ok (s, a') ↔ a = s ∧ a = a' := by
  constructor
  · intro h
    cases h
    exact ⟨rfl, rfl⟩
  · rintro ⟨rfl, rfl⟩
    rfl

/-- Two analyses in a row, the first of which only reads. -/
theorem run_reads_bind_eq_ok {f : Cg → CgResult α} {g : α → Analyze β} {r : β × Cg} :
    (reads f >>= g).run a = .ok r ↔ ∃ x, f a = .ok x ∧ (g x).run a = .ok r := by
  rw [run_bind_eq_ok]
  constructor
  · rintro ⟨x, a', hrun, hg⟩
    obtain ⟨hx, rfl⟩ := run_reads_eq_ok.mp hrun
    exact ⟨x, hx, hg⟩
  · rintro ⟨x, hx, hg⟩
    exact ⟨x, a, run_reads_eq_ok.mpr ⟨hx, rfl⟩, hg⟩

theorem run_modify_bind_eq_ok {f : Cg → Cg} {g : Unit → Analyze β} {r : β × Cg} :
    (modify f >>= g).run a = .ok r ↔ (g ()).run (f a) = .ok r := by
  rw [run_bind_eq_ok]
  constructor
  · rintro ⟨x, a', hx, hg⟩
    obtain rfl := run_modify_eq_ok.mp hx
    exact hg
  · exact fun hg => ⟨(), f a, rfl, hg⟩

theorem run_updates_bind_eq_ok {f : Cg → CgResult Cg} {g : Unit → Analyze β} {r : β × Cg} :
    (updates f >>= g).run a = .ok r ↔ ∃ a', f a = .ok a' ∧ (g ()).run a' = .ok r := by
  rw [run_bind_eq_ok]
  constructor
  · rintro ⟨x, a', hx, hg⟩
    exact ⟨a', run_updates_eq_ok.mp hx, hg⟩
  · rintro ⟨a', hx, hg⟩
    exact ⟨(), a', run_updates_eq_ok.mpr hx, hg⟩

theorem run_get_bind_eq_ok {g : Cg → Analyze β} {r : β × Cg} :
    (get >>= g).run a = .ok r ↔ (g a).run a = .ok r := by
  rw [run_bind_eq_ok]
  constructor
  · rintro ⟨x, a', hx, hg⟩
    obtain ⟨rfl, rfl⟩ := run_get_eq_ok.mp hx
    exact hg
  · exact fun hg => ⟨a, a, rfl, hg⟩

/-! ### Declarations and assignments -/

section Variables

variable {s' : ASTStmt} {name : Ident} {value : ASTExpr} {u : Unit}

/-- The analysis of a value that is assigned to a variable. -/
def AssignsTyped (a : Cg) (value : ASTExpr) (var : CgVar) : Prop :=
  ∃ valueType, a.analyzeExpr value = .ok valueType ∧
    ∀ t d, valueType = some t → var.typeDesc = some d → t.compatible d = true

theorem checkAssignedType_ok {var : CgVar}
    (h : (checkAssignedType value var).run a = .ok (u, a')) :
    AssignsTyped a value var ∧ a = a' := by
  unfold checkAssignedType at h
  obtain ⟨valueType, hvalue, hcheck⟩ := run_reads_bind_eq_ok.mp h
  split at hcheck
  · rename_i t d hdesc
    split at hcheck
    · obtain ⟨herror, -⟩ := run_reads_eq_ok.mp hcheck
      cases herror
    · rename_i hcompatible
      obtain ⟨-, rfl⟩ := run_pure_eq_ok.mp hcheck
      refine ⟨⟨_, hvalue, fun t' d' ht hd => ?_⟩, rfl⟩
      cases ht
      rw [hdesc] at hd
      cases hd
      simpa using hcompatible
  · rename_i hnone
    obtain ⟨-, rfl⟩ := run_pure_eq_ok.mp hcheck
    exact ⟨⟨_, hvalue, fun t d ht hd => absurd hd (hnone t d ht)⟩, rfl⟩

theorem analyzeVarAssign_ok (h : (analyzeVarAssign name value).run a = .ok (u, a')) :
    ∃ var, a.findVarInScope name = some var ∧ var.isConst = false ∧
      AssignsTyped a value var ∧ a = a' := by
  unfold analyzeVarAssign at h
  rw [run_get_bind_eq_ok] at h
  split at h
  · obtain ⟨herror, -⟩ := run_reads_eq_ok.mp h
    cases herror
  · rename_i var hvar
    split at h
    · obtain ⟨x, herror, -⟩ := run_reads_bind_eq_ok.mp h
      cases herror
    · rename_i hconst
      obtain ⟨htyped, rfl⟩ := checkAssignedType_ok h
      exact ⟨var, hvar, by simpa using hconst, htyped, rfl⟩

theorem analyzeVarDecl_ok {type : VarType} {typeDesc : Option TypeDescriptor}
    {isConst : Bool}
    (h : (analyzeVarDecl name type typeDesc value isConst).run a = .ok (s', a')) :
    ∃ valueType declared, a.analyzeExpr value = .ok valueType ∧ typeDesc = some declared ∧
      a.declareVar name (some (resolveClass a declared)) isConst = .ok a' ∧
      (∀ t, valueType = some t → t.compatible (resolveClass a declared) = true) ∧
      s' = .varDecl name type (some (resolveClass a declared)) value isConst := by
  unfold analyzeVarDecl at h
  obtain ⟨valueType, hvalue, h⟩ := run_reads_bind_eq_ok.mp h
  split at h
  · obtain ⟨herror, -⟩ := run_reads_eq_ok.mp h
    cases herror
  · rw [run_get_bind_eq_ok] at h
    obtain ⟨a₁, hdeclare, h⟩ := run_updates_bind_eq_ok.mp h
    refine ⟨valueType, _, hvalue, rfl, ?_⟩
    split at h
    · rename_i t
      split at h
      · obtain ⟨x, herror, -⟩ := run_reads_bind_eq_ok.mp h
        cases herror
      · rename_i hcompatible
        obtain ⟨rfl, rfl⟩ := run_pure_eq_ok.mp h
        refine ⟨hdeclare, fun t' ht => ?_, rfl⟩
        cases ht
        simpa using hcompatible
    · obtain ⟨rfl, rfl⟩ := run_pure_eq_ok.mp h
      refine ⟨hdeclare, fun t ht => ?_, rfl⟩
      cases ht

/-- The type that `declareLoopVar` gives the variable. -/
def loopVarType (a : Cg) (iterable : ASTExpr) : Option TypeDescriptor :=
  (a.inferTypeDesc iterable).toOption.bind elementTypeDesc

theorem declareLoopVar_ok {iterable : ASTExpr}
    (h : (declareLoopVar name iterable).run a = .ok (u, a')) :
    ∃ element, loopVarType a iterable = some element ∧
      a.declareVar name (some element) false = .ok a' := by
  unfold declareLoopVar at h
  obtain ⟨iterableType, hiterable, h⟩ := run_reads_bind_eq_ok.mp h
  split at h
  · obtain ⟨herror, -⟩ := run_reads_eq_ok.mp h
    cases herror
  · rename_i element helement
    refine ⟨element, ?_, run_updates_eq_ok.mp h⟩
    unfold loopVarType
    cases hinfer : a.inferTypeDesc iterable with
    | ok d =>
        rw [hinfer] at hiterable
        cases hiterable
        exact helement
    | error stop =>
        rw [hinfer] at hiterable
        cases stop <;> cases hiterable
        cases helement

end Variables

/-! ### Statements -/

section Statements

variable {s s' : ASTStmt} {name : Ident} {e condition : ASTExpr} {op : Option Char}
  {body thenBranch elseBranch : Option (List ASTStmt)} {tag : Option TypeDescriptor}

theorem analyzeStmt_varAssign_ok {value : ASTExpr}
    (h : (analyzeStmt (.varAssign name value op)).run a = .ok (s', a')) :
    ∃ var, a.findVarInScope name = some var ∧ var.isConst = false ∧ AssignsTyped a value var ∧
      s' = .varAssign name value op ∧ a = a' := by
  unfold analyzeStmt at h
  obtain ⟨u, a₁, hassign, hpure⟩ := run_bind_eq_ok.mp h
  obtain ⟨var, hvar, hconst, htyped, rfl⟩ := analyzeVarAssign_ok hassign
  obtain ⟨rfl, rfl⟩ := run_pure_eq_ok.mp hpure
  exact ⟨var, hvar, hconst, htyped, rfl, rfl⟩

theorem analyzeStmt_indexAssign_ok {target index value : ASTExpr}
    (h : (analyzeStmt (.indexAssign target index value op)).run a = .ok (s', a')) :
    (∃ t, a.analyzeExpr target = .ok t) ∧ (∃ t, a.analyzeExpr index = .ok t) ∧
      (∃ t, a.analyzeExpr value = .ok t) ∧ s' = .indexAssign target index value op ∧ a = a' := by
  unfold analyzeStmt at h
  obtain ⟨t, ht, h⟩ := run_reads_bind_eq_ok.mp h
  obtain ⟨i, hi, h⟩ := run_reads_bind_eq_ok.mp h
  obtain ⟨v, hv, h⟩ := run_reads_bind_eq_ok.mp h
  obtain ⟨rfl, rfl⟩ := run_pure_eq_ok.mp h
  exact ⟨⟨t, ht⟩, ⟨i, hi⟩, ⟨v, hv⟩, rfl, rfl⟩

theorem analyzeStmt_memberAssign_ok {target value : ASTExpr} {member : Ident}
    (h : (analyzeStmt (.memberAssign target member value op)).run a = .ok (s', a')) :
    (∃ t, a.analyzeExpr target = .ok t) ∧ (∃ t, a.analyzeExpr value = .ok t) ∧
      s' = .memberAssign target member value op ∧ a = a' := by
  unfold analyzeStmt at h
  obtain ⟨t, ht, h⟩ := run_reads_bind_eq_ok.mp h
  obtain ⟨v, hv, h⟩ := run_reads_bind_eq_ok.mp h
  obtain ⟨rfl, rfl⟩ := run_pure_eq_ok.mp h
  exact ⟨⟨t, ht⟩, ⟨v, hv⟩, rfl, rfl⟩

theorem analyzeStmt_print_ok (h : (analyzeStmt (.print e)).run a = .ok (s', a')) :
    (∃ t, a.analyzeExpr e = .ok t) ∧ s' = .print e ∧ a = a' := by
  unfold analyzeStmt at h
  obtain ⟨t, ht, h⟩ := run_reads_bind_eq_ok.mp h
  obtain ⟨rfl, rfl⟩ := run_pure_eq_ok.mp h
  exact ⟨⟨t, ht⟩, rfl, rfl⟩

theorem analyzeStmt_expr_ok (h : (analyzeStmt (.expr e)).run a = .ok (s', a')) :
    (∃ t, a.analyzeExpr e = .ok t) ∧ s' = .expr e ∧ a = a' := by
  unfold analyzeStmt at h
  obtain ⟨t, ht, h⟩ := run_reads_bind_eq_ok.mp h
  obtain ⟨rfl, rfl⟩ := run_pure_eq_ok.mp h
  exact ⟨⟨t, ht⟩, rfl, rfl⟩

theorem analyzeStmt_return_ok (h : (analyzeStmt (.return e tag)).run a = .ok (s', a')) :
    ∃ t, a.analyzeExpr e = .ok t ∧ s' = .return e t ∧ a = a' := by
  unfold analyzeStmt at h
  obtain ⟨t, ht, h⟩ := run_reads_bind_eq_ok.mp h
  obtain ⟨rfl, rfl⟩ := run_pure_eq_ok.mp h
  exact ⟨t, ht, rfl, rfl⟩

/-- What a condition has to pass. -/
def ConditionAccepted (a : Cg) (condition : ASTExpr) : Prop :=
  (∃ t, a.analyzeExpr condition = .ok t) ∧ a.checkConditionType condition = .ok ()

theorem analyzeStmt_ifStmt_ok
    (h : (analyzeStmt (.ifStmt condition thenBranch elseBranch)).run a = .ok (s', a')) :
    ConditionAccepted a condition ∧
      ∃ thenBranch' a₁, (analyzeBody thenBranch).run a.enterScope = .ok (thenBranch', a₁) ∧
        ((elseBranch = none ∧ s' = .ifStmt condition thenBranch' none ∧ a' = a₁.leaveScope) ∨
          ∃ stmts stmts' a₂, elseBranch = some stmts ∧
            (analyzeStmts stmts).run a₁.leaveScope.enterScope = .ok (stmts', a₂) ∧
            s' = .ifStmt condition thenBranch' (some stmts') ∧ a' = a₂.leaveScope) := by
  unfold analyzeStmt at h
  obtain ⟨t, ht, h⟩ := run_reads_bind_eq_ok.mp h
  obtain ⟨u, hcondition, h⟩ := run_reads_bind_eq_ok.mp h
  rw [run_modify_bind_eq_ok] at h
  obtain ⟨thenBranch', a₁, hthen, h⟩ := run_bind_eq_ok.mp h
  rw [run_modify_bind_eq_ok] at h
  refine ⟨⟨⟨t, ht⟩, hcondition⟩, thenBranch', a₁, hthen, ?_⟩
  split at h
  · obtain ⟨rfl, rfl⟩ := run_pure_eq_ok.mp h
    exact .inl ⟨rfl, rfl, rfl⟩
  · rw [run_modify_bind_eq_ok] at h
    obtain ⟨stmts', a₂, helse, h⟩ := run_bind_eq_ok.mp h
    rw [run_modify_bind_eq_ok] at h
    obtain ⟨rfl, rfl⟩ := run_pure_eq_ok.mp h
    exact .inr ⟨_, stmts', a₂, rfl, helse, rfl, rfl⟩

theorem analyzeStmt_whileStmt_ok
    (h : (analyzeStmt (.whileStmt condition body)).run a = .ok (s', a')) :
    ConditionAccepted a condition ∧
      ∃ body' a₁, (analyzeBody body).run a.enterScope = .ok (body', a₁) ∧
        s' = .whileStmt condition body' ∧ a' = a₁.leaveScope := by
  unfold analyzeStmt at h
  obtain ⟨t, ht, h⟩ := run_reads_bind_eq_ok.mp h
  obtain ⟨u, hcondition, h⟩ := run_reads_bind_eq_ok.mp h
  rw [run_modify_bind_eq_ok] at h
  obtain ⟨body', a₁, hbody, h⟩ := run_bind_eq_ok.mp h
  rw [run_modify_bind_eq_ok] at h
  obtain ⟨rfl, rfl⟩ := run_pure_eq_ok.mp h
  exact ⟨⟨⟨t, ht⟩, hcondition⟩, body', a₁, hbody, rfl, rfl⟩

theorem analyzeStmt_forStmt_ok
    (h : (analyzeStmt (.forStmt name e body)).run a = .ok (s', a')) :
    (∃ t, a.analyzeExpr e = .ok t) ∧
      ∃ a₁ body' a₂, a.enterScope.declareVar name (some .int) false = .ok a₁ ∧
        (analyzeBody body).run a₁ = .ok (body', a₂) ∧
        s' = .forStmt name e body' ∧ a' = a₂.leaveScope := by
  unfold analyzeStmt at h
  obtain ⟨t, ht, h⟩ := run_reads_bind_eq_ok.mp h
  rw [run_modify_bind_eq_ok] at h
  obtain ⟨a₁, hdeclare, h⟩ := run_updates_bind_eq_ok.mp h
  obtain ⟨body', a₂, hbody, h⟩ := run_bind_eq_ok.mp h
  rw [run_modify_bind_eq_ok] at h
  obtain ⟨rfl, rfl⟩ := run_pure_eq_ok.mp h
  exact ⟨⟨t, ht⟩, a₁, body', a₂, hdeclare, hbody, rfl, rfl⟩

theorem analyzeStmt_forIn_ok
    (h : (analyzeStmt (.forIn name e body)).run a = .ok (s', a')) :
    (∃ t, a.analyzeExpr e = .ok t) ∧
      ∃ element a₁ body' a₂, loopVarType a.enterScope e = some element ∧
        a.enterScope.declareVar name (some element) false = .ok a₁ ∧
        (analyzeBody body).run a₁ = .ok (body', a₂) ∧
        s' = .forIn name e body' ∧ a' = a₂.leaveScope := by
  unfold analyzeStmt at h
  obtain ⟨t, ht, h⟩ := run_reads_bind_eq_ok.mp h
  rw [run_modify_bind_eq_ok] at h
  obtain ⟨u, a₁, hloop, h⟩ := run_bind_eq_ok.mp h
  obtain ⟨element, helement, hdeclare⟩ := declareLoopVar_ok hloop
  obtain ⟨body', a₂, hbody, h⟩ := run_bind_eq_ok.mp h
  rw [run_modify_bind_eq_ok] at h
  obtain ⟨rfl, rfl⟩ := run_pure_eq_ok.mp h
  exact ⟨⟨t, ht⟩, element, a₁, body', a₂, helement, hdeclare, hbody, rfl, rfl⟩

theorem analyzeStmt_funcDecl_ne_ok {decl : FuncDecl} :
    (analyzeStmt (.funcDecl decl)).run a ≠ .ok (s', a') := by
  intro h
  unfold analyzeStmt at h
  obtain ⟨herror, -⟩ := run_reads_eq_ok.mp h
  cases herror

theorem analyzeStmt_structDecl_ok {fields : List (Ident × TypeDescriptor)}
    (h : (analyzeStmt (.structDecl name fields)).run a = .ok (s', a')) :
    a.declareStructFromAst name fields = .ok a' ∧ s' = .structDecl name fields := by
  unfold analyzeStmt at h
  obtain ⟨a₁, hdeclare, h⟩ := run_updates_bind_eq_ok.mp h
  obtain ⟨rfl, rfl⟩ := run_pure_eq_ok.mp h
  exact ⟨hdeclare, rfl⟩

theorem analyzeStmt_classDecl_ok {parentName : Option Ident}
    {fields : List (Ident × TypeDescriptor)} {methods : List FuncDecl}
    {constructor : Option FuncDecl}
    (h : (analyzeStmt (.classDecl name parentName fields methods constructor)).run a =
      .ok (s', a')) :
    a.declareClassFromAst name parentName fields methods constructor = .ok a' ∧
      s' = .classDecl name parentName fields methods constructor := by
  unfold analyzeStmt at h
  obtain ⟨a₁, hdeclare, h⟩ := run_updates_bind_eq_ok.mp h
  obtain ⟨rfl, rfl⟩ := run_pure_eq_ok.mp h
  exact ⟨hdeclare, rfl⟩

theorem analyzeBody_some_ok {stmts : List ASTStmt} {body' : Option (List ASTStmt)}
    (h : (analyzeBody (some stmts)).run a = .ok (body', a')) :
    ∃ stmts', (analyzeStmts stmts).run a = .ok (stmts', a') ∧ body' = some stmts' := by
  unfold analyzeBody at h
  obtain ⟨stmts', a₁, hstmts, h⟩ := run_bind_eq_ok.mp h
  obtain ⟨rfl, rfl⟩ := run_pure_eq_ok.mp h
  exact ⟨stmts', hstmts, rfl⟩

theorem analyzeStmts_cons_ok {stmts stmts' : List ASTStmt}
    (h : (analyzeStmts (s :: stmts)).run a = .ok (stmts', a')) :
    ∃ t a₁ ts, (analyzeStmt s).run a = .ok (t, a₁) ∧ (analyzeStmts stmts).run a₁ = .ok (ts, a') ∧
      stmts' = t :: ts := by
  unfold analyzeStmts at h
  obtain ⟨t, a₁, hs, h⟩ := run_bind_eq_ok.mp h
  obtain ⟨ts, a₂, hstmts, h⟩ := run_bind_eq_ok.mp h
  obtain ⟨rfl, rfl⟩ := run_pure_eq_ok.mp h
  exact ⟨t, a₁, ts, hs, hstmts, rfl⟩

end Statements

end Analyze

end BreadLang
