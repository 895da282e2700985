import BreadLang.Codegen.ScopedBlocks
import BreadLang.Codegen.Steps

/-!
# The scopes that lowering gives to blocks

The builder gives scopes to the blocks of `main`, and to no block of a function, where
alone it builds a `return`.  So every body of a module has code whose scopes are kept
(`buildModule_scoped`).
-/

namespace BreadLang

open Lower Stateful

variable {b : Builder} {fn : Option CgCallee} {inMain : Bool} {name : Ident} {value : ASTExpr}
  {op : Option Char}

theorem codeScoped_singleton {c : CodeStmt} (h : c.Scoped inMain) : CodeScoped inMain [c] :=
  ⟨h, trivial⟩

theorem codeScoped_flatten {codes : List (List CodeStmt)}
    (h : ∀ code ∈ codes, CodeScoped inMain code) : CodeScoped inMain codes.flatten := by
  induction codes with
  | nil => trivial
  | cons code codes ih =>
      obtain ⟨hfirst, hrest⟩ := List.forall_mem_cons.mp h
      exact codeScoped_append.mpr ⟨hfirst, ih hrest⟩

/-! ### Statements without lists -/

theorem returns_scoped {α : Type} {m : Lower α} {f : α → CodeStmt}
    (hf : ∀ a, (f a).Scoped inMain) :
    Returns (m >>= fun a => pure [f a]) (CodeScoped inMain) :=
  returns_bind_any fun a => returns_pure (codeScoped_singleton (hf a))

theorem buildVarDecl_scoped {type : VarType} {typeDesc : Option TypeDescriptor} {isConst : Bool} :
    Returns (buildVarDecl b fn name type typeDesc value isConst) (CodeScoped inMain) := by
  unfold buildVarDecl
  cases fn with
  | none => exact returns_scoped fun _ => trivial
  | some f =>
      dsimp only
      split
      · exact returns_bind_any fun _ => returns_bind_any fun _ => returns_scoped fun _ => trivial
      · exact returns_bind_any fun _ => returns_bind_any fun _ => returns_scoped fun _ => trivial

theorem buildUnboxedCompoundAssign_scoped {slot : StackSlot} {type : UnboxedType} {op : Char} :
    Returns (buildUnboxedCompoundAssign b fn slot type value op) (CodeScoped inMain) := by
  unfold buildUnboxedCompoundAssign
  refine returns_bind_any fun rhs => ?_
  split
  · split
    · exact returns_pure (codeScoped_singleton trivial)
    · exact returns_scoped fun _ => trivial
  · exact returns_scoped fun _ => trivial

theorem buildVarAssign_scoped :
    Returns (buildVarAssign b fn name value op) (CodeScoped inMain) := by
  unfold buildVarAssign
  refine returns_bind_any fun cg => ?_
  split
  · exact returns_bind_any fun _ => buildUnboxedCompoundAssign_scoped
  · refine returns_bind_any fun _ => ?_
    unfold buildUnboxedAssign
    refine returns_bind_any fun v => ?_
    split
    · exact returns_throw
    · exact returns_pure (codeScoped_singleton trivial)
  · unfold buildBoxedCompoundAssign
    refine returns_bind_any fun _ => returns_bind_any fun _ => returns_bind_any fun _ => ?_
    split
    · exact returns_scoped fun _ => trivial
    · exact returns_scoped fun _ => trivial
  · unfold buildBoxedAssign
    refine returns_bind_any fun _ => ?_
    cases fn with
    | none => exact returns_scoped fun _ => trivial
    | some f =>
        refine returns_bind_any fun _ => ?_
        split
        · exact returns_scoped fun _ => trivial
        · exact returns_bind_any fun _ => returns_bind_any fun _ => returns_scoped fun _ => trivial

theorem buildIndexAssign_scoped {target index : ASTExpr} :
    Returns (buildIndexAssign b fn target index value op) (CodeScoped inMain) := by
  unfold buildIndexAssign
  refine returns_bind_any fun _ => returns_bind_any fun _ => returns_bind_any fun _ => ?_
  split
  · exact returns_pure (codeScoped_singleton trivial)
  · exact returns_pure (codeScoped_singleton trivial)

theorem buildMemberAssign_scoped {target : ASTExpr} {member : Ident} :
    Returns (buildMemberAssign b fn target member value op) (CodeScoped inMain) := by
  unfold buildMemberAssign
  refine returns_bind_any fun _ => returns_bind_any fun _ => ?_
  split
  · exact returns_pure (codeScoped_singleton trivial)
  · exact returns_pure (codeScoped_singleton trivial)

theorem buildReturn_scoped : Returns (buildReturn b fn value) (CodeScoped fn.isNone) := by
  unfold buildReturn
  refine returns_bind_any fun v => ?_
  split
  · exact returns_throw
  · rename_i hfn
    exact returns_pure (codeScoped_singleton (Bool.eq_false_iff.mpr hfn))

/-! ### Statements with lists -/

/-- The builder gives scopes to the blocks that have them. -/
def Builder.IsScoped (b : Builder) : Prop :=
  ∀ fn s, Returns (b.stmt fn s) (CodeScoped fn.isNone)

theorem buildStmts_scoped (hb : b.IsScoped) (stmts : List ASTStmt) :
    Returns (buildStmts b fn stmts) (CodeScoped fn.isNone) :=
  returns_bind (returns_mapM (hb fn) stmts) fun _ hcodes =>
    returns_pure (codeScoped_flatten hcodes)

theorem buildBody_scoped (hb : b.IsScoped) (body : Option (List ASTStmt)) :
    Returns (buildBody b fn body) (CodeScoped fn.isNone) := by
  cases body with
  | none => exact returns_pure trivial
  | some stmts => exact buildStmts_scoped hb stmts

/-- A list that is given up has been built up to there. -/
theorem buildStmtsUntested_scoped (hb : b.IsScoped) (stmts : List ASTStmt) :
    Returns (buildStmtsUntested b fn stmts) (CodeScoped fn.isNone) := by
  induction stmts with
  | nil => exact returns_pure trivial
  | cons s stmts ih =>
      unfold buildStmtsUntested
      have hfirst : Returns (testNull (b.stmt fn s)) fun code =>
          ∀ c, code = some c → CodeScoped fn.isNone c := by
        rintro cg _ h c rfl
        rw [testNull, result_attempt] at h
        cases hresult : (b.stmt fn s).result cg with
        | ok c' =>
            rw [hresult] at h
            cases h
            exact hb fn s cg _ hresult
        | error e =>
            rw [hresult] at h
            dsimp only at h
            split at h <;> cases h
      refine returns_bind hfirst fun code hcode => ?_
      cases code with
      | some c => exact returns_bind ih fun rest hrest => returns_pure (codeScoped_append.mpr ⟨hcode c rfl, hrest⟩)
      | none => exact returns_pure (codeScoped_singleton trivial)

theorem buildLoop_scoped (hb : b.IsScoped) {α : Type} {head : Lower α}
    (body : Option (List ASTStmt)) :
    Returns (buildLoop b fn head body) fun r => CodeScoped fn.isNone r.2 := by
  unfold buildLoop
  refine returns_bind_any fun outer => returns_bind_any fun _ => returns_bind_any fun a => ?_
  have hbody : Returns (do
      let code ← buildBody b fn body
      modify fun cg => { cg with inLoop := outer.inLoop, loopHasScope := outer.loopHasScope }
      return (a, code)) fun r => CodeScoped fn.isNone r.2 :=
    returns_bind (buildBody_scoped hb body) fun code hcode =>
      returns_bind_any fun _ => returns_pure hcode
  split
  · exact returns_bind_any fun _ => hbody
  · exact hbody

theorem buildIf_scoped (hb : b.IsScoped) {condition : ASTExpr}
    (thenBranch elseBranch : Option (List ASTStmt)) :
    Returns (buildIf b fn condition thenBranch elseBranch) (CodeScoped fn.isNone) := by
  unfold buildIf
  refine returns_bind_any fun c => returns_bind (buildBody_scoped hb thenBranch) ?_
  intro thenCode hthen
  cases elseBranch with
  | none => exact returns_pure (codeScoped_singleton ⟨rfl, hthen⟩)
  | some stmts =>
      refine returns_bind (buildBody_scoped hb (some stmts)) fun elseCode helse => ?_
      exact returns_pure (codeScoped_singleton ⟨rfl, hthen, helse⟩)

theorem buildStmt_scoped (hb : b.IsScoped) (s : ASTStmt) :
    Returns (buildStmt b fn s) (CodeScoped fn.isNone) := by
  unfold buildStmt
  cases s with
  | expr e => exact returns_scoped fun _ => trivial
  | print e => exact returns_scoped fun _ => trivial
  | varDecl name type typeDesc init isConst => exact buildVarDecl_scoped
  | varAssign name value op => exact buildVarAssign_scoped
  | indexAssign target index value op => exact buildIndexAssign_scoped
  | memberAssign target member value op => exact buildMemberAssign_scoped
  | ifStmt condition thenBranch elseBranch => exact buildIf_scoped hb thenBranch elseBranch
  | whileStmt condition body =>
      refine returns_bind (buildLoop_scoped hb body) fun r hr => ?_
      exact returns_pure (codeScoped_singleton ⟨rfl, hr⟩)
  | forStmt name rangeExpr body =>
      dsimp only
      unfold buildFor
      split
      · exact returns_throw
      · refine returns_bind (buildLoop_scoped hb body) fun r hr => ?_
        exact returns_pure (codeScoped_singleton ⟨rfl, hr⟩)
  | forIn name iterable body =>
      refine returns_bind (buildLoop_scoped hb body) fun r hr => ?_
      exact returns_pure (codeScoped_singleton ⟨rfl, hr⟩)
  | «break» =>
      refine returns_bind_any fun cg => ?_
      split
      · exact returns_pure (codeScoped_singleton trivial)
      · exact returns_throw
  | «continue» =>
      refine returns_bind_any fun cg => ?_
      split
      · exact returns_pure (codeScoped_singleton trivial)
      · exact returns_throw
  | funcDecl decl => exact returns_bind_any fun _ => returns_bind_any fun _ => returns_pure trivial
  | structDecl name fields => exact returns_pure trivial
  | classDecl name parentName fields methods constructor =>
      refine returns_bind_any fun cg => ?_
      split
      · exact returns_throw
      · exact returns_bind_any fun _ => returns_bind_any fun _ => returns_pure trivial
  | «return» e tag => exact buildReturn_scoped
  | importStmt modulePath moduleAlias isSelective symbols => exact returns_throw
  | exportStmt isDefault symbols => exact returns_throw

/-- **The code of a statement** has the scopes of `main`, or those of a function. -/
theorem builder_isScoped : ∀ n : ℕ, (builder n).IsScoped
  | 0 => fun _ _ => returns_throw
  | n + 1 => fun _ s => buildStmt_scoped (builder_isScoped n) s

/-! ### The module -/

/-- **The bodies of the module** have blocks without scopes. -/
def ModuleScoped (cg : Cg) : Prop :=
  ∀ body ∈ cg.module, CodeScoped false body.code

theorem moduleScoped_eventInvariant : EventInvariant ModuleScoped where
  call _ _ _ _ h := h
  methodCall _ _ _ _ h := h
  assign _ _ _ _ _ _ h := h

/-- The builder keeps the bodies of the module. -/
def Builder.KeepsModule (b : Builder) : Prop :=
  ∀ fn s, Keeps ModuleScoped (b.stmt fn s)

section Keeps

variable {stmts : List ASTStmt}

/-- A new body is put in front of the others. -/
theorem moduleScoped_cons {cg : Cg} {body : CodeBody} (h : ModuleScoped cg)
    (hbody : CodeScoped false body.code) : ∀ b ∈ body :: cg.module, CodeScoped false b.code :=
  List.forall_mem_cons.mpr ⟨hbody, h⟩

theorem keepsModule_buildStmts (hb : b.KeepsModule) (stmts : List ASTStmt) :
    Keeps ModuleScoped (buildStmts b fn stmts) :=
  keeps_bind (keeps_mapM (hb fn) stmts) fun _ => keeps_pure _

theorem keepsModule_buildBody (hb : b.KeepsModule) (body : Option (List ASTStmt)) :
    Keeps ModuleScoped (buildBody b fn body) := by
  cases body with
  | none => exact keeps_pure _
  | some stmts => exact keepsModule_buildStmts hb stmts

theorem keepsModule_buildStmtsUntested (hb : b.KeepsModule) (stmts : List ASTStmt) :
    Keeps ModuleScoped (buildStmtsUntested b fn stmts) := by
  induction stmts with
  | nil => exact keeps_pure _
  | cons s stmts ih =>
      unfold buildStmtsUntested
      refine keeps_bind (keeps_testNull (hb fn s)) fun code => ?_
      split
      · exact keeps_bind ih fun _ => keeps_pure _
      · exact keeps_pure _

/-- What follows a list that has been built knows its code. -/
theorem keeps_bind_returns {α β : Type} {I : Cg → Prop} {Q : α → Prop} {m : Lower α}
    {f : α → Lower β} (hm : Keeps I m) (hreturns : Returns m Q) (hf : ∀ a, Q a → Keeps I (f a)) :
    Keeps I (m >>= f) := by
  intro cg hcg
  rw [final_bind]
  cases hresult : m.result cg with
  | ok a => exact hf a (hreturns cg a hresult) _ (hm cg hcg)
  | error e => exact hm cg hcg

theorem keepsModule_buildMethodFunction (hb : b.KeepsModule) (hscoped : b.IsScoped) (c : CgClass)
    (decl : FuncDecl) : Keeps ModuleScoped (buildMethodFunction b c name decl) := by
  unfold buildMethodFunction
  refine keeps_bind (keeps_modifyGet fun _ h => h) fun fn => keeps_get_any fun outer => ?_
  refine keeps_bind (keeps_modify fun _ h => h) fun _ => ?_
  refine keeps_bind_returns (keepsModule_buildStmtsUntested hb _)
    (buildStmtsUntested_scoped hscoped _) fun code hcode => ?_
  exact keeps_bind (keeps_modify fun cg h => moduleScoped_cons h hcode) fun _ => keeps_pure _

theorem keepsModule_buildMethods (hb : b.KeepsModule) (hscoped : b.IsScoped) (c : CgClass)
    (methods : List FuncDecl) : ∀ index, Keeps ModuleScoped (buildMethods b c index methods) := by
  induction methods with
  | nil => exact fun _ => keeps_pure _
  | cons decl methods ih =>
      intro index
      unfold buildMethods
      split
      · exact keeps_bind (keepsModule_buildMethodFunction hb hscoped c decl) fun _ =>
          keeps_bind (keeps_modify fun _ h => h) fun _ => ih _
      · exact ih _

theorem keepsModule_buildClassDecl (hb : b.KeepsModule) (hscoped : b.IsScoped) :
    Keeps ModuleScoped (buildClassDecl b name) := by
  refine keeps_get_any fun cg => ?_
  split
  · exact keeps_throw _
  · rename_i c _
    have hconstructor : Keeps ModuleScoped (buildConstructor b c) := by
      unfold buildConstructor
      split
      · exact keeps_pure _
      · exact keeps_bind (keepsModule_buildMethodFunction hb hscoped c _) fun _ =>
          keeps_modify fun _ h => h
    exact keeps_bind hconstructor fun _ =>
      keeps_bind (keepsModule_buildMethods hb hscoped c _ 0) fun _ => keeps_pure _

theorem keepsModule_buildVarDecl (hb : b.KeepsExpr ModuleScoped) {type : VarType}
    {typeDesc : Option TypeDescriptor} {isConst : Bool} :
    Keeps ModuleScoped (buildVarDecl b fn name type typeDesc value isConst) := by
  unfold buildVarDecl
  split
  · exact keeps_bind (hb.expr _ _) fun _ => keeps_pure _
  · split
    · exact keeps_bind (hb.exprUnboxed _ _) fun _ => keeps_bind (keeps_modifyGet fun _ h => h)
        fun _ => keeps_bind (keeps_modify fun _ h => h) fun _ => keeps_pure _
    · exact keeps_bind (hb.expr _ _) fun _ => keeps_bind (keeps_modifyGet fun _ h => h)
        fun _ => keeps_bind (keeps_modify fun _ h => h) fun _ => keeps_pure _

/-- Recording an assignment does not change the module. -/
theorem keepsModule_recordAssign {target : Location} :
    Keeps ModuleScoped (recordAssign fn name op target) :=
  keeps_get_any fun _ => keeps_modify fun _ h => h

theorem keepsModule_buildVarAssign (hb : b.KeepsExpr ModuleScoped) :
    Keeps ModuleScoped (buildVarAssign b fn name value op) := by
  unfold buildVarAssign
  refine keeps_get_any fun cg => ?_
  split
  · exact keeps_bind keepsModule_recordAssign fun _ =>
      keeps_buildUnboxedCompoundAssign hb fn _ _ value _
  · exact keeps_bind keepsModule_recordAssign fun _ => keeps_buildUnboxedAssign hb fn _ _ value
  · exact keeps_buildBoxedCompoundAssign moduleScoped_eventInvariant hb fn name value _
  · unfold buildBoxedAssign
    refine keeps_bind (hb.expr fn value) fun v => ?_
    cases fn with
    | none => exact keeps_bind keepsModule_recordAssign fun _ => keeps_pure _
    | some f =>
        refine keeps_get_any fun cg => ?_
        split
        · exact keeps_bind keepsModule_recordAssign fun _ => keeps_pure _
        · exact keeps_bind (keeps_modifyGet fun _ h => h) fun _ =>
            keeps_bind keepsModule_recordAssign fun _ =>
              keeps_bind (keeps_modify fun _ h => h) fun _ => keeps_pure _

theorem keepsModule_buildLoop (hb : b.KeepsModule) {α : Type} {head : Lower α}
    (hhead : Keeps ModuleScoped head) (body : Option (List ASTStmt)) :
    Keeps ModuleScoped (buildLoop b fn head body) := by
  refine keeps_get_any fun outer => keeps_bind (keeps_modify fun _ h => h) fun _ => ?_
  refine keeps_bind hhead fun a => ?_
  have hrest : Keeps ModuleScoped (do
      let code ← buildBody b fn body
      modify fun cg => { cg with inLoop := outer.inLoop, loopHasScope := outer.loopHasScope }
      return (a, code) : Lower (α × List CodeStmt)) :=
    keeps_bind (keepsModule_buildBody hb body) fun _ =>
      keeps_bind (keeps_modify fun _ h => h) fun _ => keeps_pure _
  split
  · exact keeps_bind (keeps_modify fun _ h => h) fun _ => hrest
  · exact hrest

theorem keepsModule_buildStmt (hexpr : b.KeepsExpr ModuleScoped) (hb : b.KeepsModule)
    (hscoped : b.IsScoped) (s : ASTStmt) : Keeps ModuleScoped (buildStmt b fn s) := by
  unfold buildStmt
  cases s with
  | expr e => exact keeps_bind (hexpr.expr fn e) fun _ => keeps_pure _
  | print e => exact keeps_bind (hexpr.expr fn e) fun _ => keeps_pure _
  | varDecl name type typeDesc init isConst => exact keepsModule_buildVarDecl hexpr
  | varAssign name value op => exact keepsModule_buildVarAssign hexpr
  | indexAssign target index value op =>
      exact keeps_buildIndexAssign hexpr fn target index value op
  | memberAssign target member value op =>
      exact keeps_buildMemberAssign hexpr fn target member value op
  | ifStmt condition thenBranch elseBranch =>
      refine keeps_bind (keeps_buildCondition hexpr fn condition) fun c => ?_
      refine keeps_bind (keepsModule_buildBody hb thenBranch) fun thenCode => ?_
      split
      · exact keeps_pure _
      · exact keeps_bind (keepsModule_buildStmts hb _) fun _ => keeps_pure _
  | whileStmt condition body =>
      exact keeps_bind (keepsModule_buildLoop hb (keeps_buildCondition hexpr fn condition) body)
        fun _ => keeps_pure _
  | forStmt name rangeExpr body =>
      dsimp only
      unfold buildFor
      split
      · exact keeps_throw _
      · exact keeps_bind (keepsModule_buildLoop hb (keeps_pure _) body) fun _ => keeps_pure _
  | forIn name iterable body =>
      exact keeps_bind (keepsModule_buildLoop hb (keeps_buildIterable hexpr fn iterable) body)
        fun _ => keeps_pure _
  | «break» =>
      refine keeps_get_any fun cg => ?_
      split
      · exact keeps_pure _
      · exact keeps_throw _
  | «continue» =>
      refine keeps_get_any fun cg => ?_
      split
      · exact keeps_pure _
      · exact keeps_throw _
  | funcDecl decl =>
      exact keeps_bind (keeps_modifyGet fun _ h => h) fun _ =>
        keeps_bind (keeps_modify fun _ h => h) fun _ => keeps_pure _
  | structDecl name fields => exact keeps_pure _
  | classDecl name parentName fields methods constructor =>
      exact keepsModule_buildClassDecl hb hscoped
  | «return» e tag => exact keeps_buildReturn hexpr fn e
  | importStmt modulePath moduleAlias isSelective symbols => exact keeps_throw _
  | exportStmt isDefault symbols => exact keeps_throw _

theorem builder_keepsModule : ∀ n : ℕ, (builder n).KeepsModule
  | 0 => fun _ _ => keeps_throw _
  | n + 1 => fun _ s => keepsModule_buildStmt
      (builder_keepsExpr moduleScoped_eventInvariant n) (builder_keepsModule n)
      (builder_isScoped n) s

theorem keepsModule_setupParams : ∀ params : List ASTParam,
    Keeps ModuleScoped (setupParams params)
  | [] => keeps_pure _
  | _ :: params => keeps_bind (keeps_modifyGet fun _ h => h) fun _ =>
      keeps_bind (keeps_modify fun _ h => h) fun _ =>
        keeps_bind (keepsModule_setupParams params) fun _ => keeps_pure _

theorem keepsModule_generateFunctionBody (n : ℕ) (f : CgFunction) :
    Keeps ModuleScoped (generateFunctionBody (builder n) f) := by
  unfold generateFunctionBody
  split
  · exact keeps_pure _
  · refine keeps_bind (keeps_deref _) fun fn => keeps_bind (keeps_modify fun _ h => h) fun _ => ?_
    refine keeps_bind (keepsModule_setupParams _) fun params => ?_
    exact keeps_bind_returns (keepsModule_buildStmts (builder_keepsModule n) _)
      (buildStmts_scoped (builder_isScoped n) _) fun code hcode =>
        keeps_modify fun cg h => moduleScoped_cons h hcode

/-- **A module that is built** has the scopes of `main` in the code of `main`, and no others. -/
theorem buildModule_scoped {n : ℕ} {program : ASTStmtList} {cg : Cg} {main : List CodeStmt}
    (h : (buildModule n program).result cg = .ok main) (hcg : ModuleScoped cg) :
    CodeScoped true main ∧ ModuleScoped ((buildModule n program).final cg) := by
  refine ⟨?_, ?_⟩
  · have hmain : Returns (buildModule n program) (CodeScoped true) :=
      returns_bind (buildStmts_scoped (builder_isScoped n) program) fun main hmain =>
        returns_bind_any fun _ => returns_bind_any fun _ => returns_bind_any fun _ =>
          returns_bind_any fun _ => returns_pure hmain
    exact hmain cg main h
  · have hkeeps : Keeps ModuleScoped (buildModule n program) := by
      refine keeps_bind (keepsModule_buildStmts (builder_keepsModule n) program) fun main => ?_
      refine keeps_get_any fun cg =>
        keeps_bind (keeps_forM (keepsModule_generateFunctionBody n) _) fun _ => ?_
      refine keeps_get_any fun cg =>
        keeps_bind (keeps_forM (fun c => keeps_forM (fun m => ?_) _) _) fun _ => keeps_pure _
      split
      · exact keeps_pure _
      · exact keeps_bind (keeps_deref _) fun _ => keeps_pure _
    exact hkeeps cg hcg

end Keeps

end BreadLang
