import BreadLang.Codegen.LexicalScope
import Mathlib.Data.List.Find

/-!
# Where the two passes agree

`scopes_agree_iff` is the result: in a function that the analysis accepts and the
generator builds, every use of a variable is resolved by both passes to the same
declaration if and only if the body uses no captured name.  A name is captured
by a declaration in a block that has ended, and in a loop whose variable has the
name of a variable with a slot.

The invariant is `Tracks`: what the text says of a name is what the two states
say.  A statement in a block can only add to the two scopes; the analysis drops
what has been added when the block ends, the generator keeps it.
-/

namespace BreadLang

open Lower Stateful Analyze

/-! ### What the generator adds -/

/-- What has been built has added variables with new slots to the scope of the
generator, and their names are the given ones. -/
structure GrowsBy (names : List Ident) (c c' : Cg) : Prop where
  scope : ∃ new, c'.scope = new ++ c.scope ∧
    (∀ v ∈ new, v.name ∈ names ∧ ∃ k, c.nextSlot ≤ k ∧ k < c'.nextSlot ∧ v.alloca = .alloca k) ∧
    ∀ name ∈ names, ∃ v ∈ new, v.name = name
  nextSlot_le : c.nextSlot ≤ c'.nextSlot

namespace GrowsBy

variable {names names' : List Ident} {c c' c'' : Cg}

theorem of_same (hscope : c'.scope = c.scope) (hslot : c.nextSlot ≤ c'.nextSlot) :
    GrowsBy [] c c' where
  scope := ⟨[], hscope, by simp, by simp⟩
  nextSlot_le := hslot

theorem refl (c : Cg) : GrowsBy [] c c :=
  of_same rfl le_rfl

theorem trans (h : GrowsBy names c c') (h' : GrowsBy names' c' c'') :
    GrowsBy (names ++ names') c c'' := by
  obtain ⟨new, hscope, hnew, hnames⟩ := h.scope
  obtain ⟨new', hscope', hnew', hnames'⟩ := h'.scope
  have hle := h.nextSlot_le
  have hle' := h'.nextSlot_le
  refine ⟨⟨new' ++ new, ?_, ?_, ?_⟩, hle.trans hle'⟩
  · rw [hscope', hscope, List.append_assoc]
  · intro v hv
    rcases List.mem_append.mp hv with hv | hv
    · obtain ⟨hname, k, hk, hk', halloca⟩ := hnew' v hv
      exact ⟨List.mem_append_right _ hname, k, hle.trans hk, hk', halloca⟩
    · obtain ⟨hname, k, hk, hk', halloca⟩ := hnew v hv
      exact ⟨List.mem_append_left _ hname, k, hk, hk'.trans_le hle', halloca⟩
  · intro name hname
    rcases List.mem_append.mp hname with hname | hname
    · obtain ⟨v, hv, hvname⟩ := hnames name hname
      exact ⟨v, List.mem_append_right _ hv, hvname⟩
    · obtain ⟨v, hv, hvname⟩ := hnames' name hname
      exact ⟨v, List.mem_append_left _ hv, hvname⟩

/-- What has the same scope and slots may stand on either side. -/
theorem congr {d d' : Cg} (h : GrowsBy names c c') (hscope : d.scope = c.scope)
    (hslot : d.nextSlot = c.nextSlot) (hscope' : d'.scope = c'.scope)
    (hslot' : d'.nextSlot = c'.nextSlot) : GrowsBy names d d' := by
  obtain ⟨hnew, hle⟩ := h
  rw [← hscope, ← hscope', ← hslot, ← hslot'] at hnew
  rw [← hslot, ← hslot'] at hle
  exact ⟨hnew, hle⟩

theorem scopeFindVar_of_not_mem (h : GrowsBy names c c') {name : Ident} (hname : name ∉ names) :
    c'.scopeFindVar name = c.scopeFindVar name := by
  obtain ⟨new, hscope, hnew, -⟩ := h.scope
  have hnone : new.find? (fun v => v.name == name) = none := by
    refine List.find?_eq_none.mpr fun v hv => ?_
    have hne : v.name ≠ name := fun heq => hname (heq ▸ (hnew v hv).1)
    simpa using hne
  unfold Cg.scopeFindVar
  rw [hscope, List.find?_append, hnone, Option.none_or]

theorem scopeFindVar_of_mem (h : GrowsBy names c c') {name : Ident} (hname : name ∈ names) :
    ∃ v k, c'.scopeFindVar name = some v ∧ c.nextSlot ≤ k ∧ v.alloca = .alloca k := by
  obtain ⟨new, hscope, hnew, hnames⟩ := h.scope
  obtain ⟨v, hv, hvname⟩ := hnames name hname
  have hsome : (new.find? fun v => v.name == name).isSome := by
    rw [List.find?_isSome]
    exact ⟨v, hv, by simpa using hvname⟩
  obtain ⟨w, hw⟩ := Option.isSome_iff_exists.mp hsome
  obtain ⟨-, k, hk, -, halloca⟩ := hnew w (List.mem_of_find?_eq_some hw)
  refine ⟨w, k, ?_, hk, halloca⟩
  unfold Cg.scopeFindVar
  rw [hscope, List.find?_append, hw, Option.some_or]

end GrowsBy

/-! ### Expressions leave the scope alone -/

/-- The scope and the next slot of a state. -/
def SameScope (c c' : Cg) : Prop :=
  c'.scope = c.scope ∧ c'.nextSlot = c.nextSlot

theorem sameScope_eventInvariant (c : Cg) : EventInvariant (SameScope c) where
  call := fun _ _ _ _ h => h
  methodCall := fun _ _ _ _ h => h
  assign := fun _ _ _ _ _ _ h => h

theorem SameScope.growsBy {c c' : Cg} (h : SameScope c c') : GrowsBy [] c c' :=
  .of_same h.1 h.2.ge

section Builders

variable {n : ℕ} {c : Cg} {fn : CgCallee}

theorem sameScope_of_keeps {α : Type} {m : Lower α} (h : Keeps (SameScope c) m) :
    SameScope c (m.final c) :=
  h c ⟨rfl, rfl⟩

theorem builder_keepsScope (n : ℕ) (c : Cg) : (builder n).KeepsExpr (SameScope c) :=
  builder_keepsExpr (sameScope_eventInvariant c) n

/-! ### What the parts of a statement leave -/

/-- Steps never give a slot back. -/
theorem CgStep.nextSlot_le {c c' : Cg} (h : CgStep c c') : c.nextSlot ≤ c'.nextSlot := by
  cases h with
  | slot => exact Nat.le_succ _
  | _ => exact le_rfl

theorem Reaches.nextSlot_le {c c' : Cg} (h : Reaches c c') : c.nextSlot ≤ c'.nextSlot := by
  induction h with
  | refl => exact le_rfl
  | tail _ hlast ih => exact ih.trans hlast.nextSlot_le

/-- What a sequence that succeeds has gone through. -/
theorem bind_ok {α β : Type} {m : Lower α} {f : α → Lower β} {b : β}
    (h : (m >>= f).result c = .ok b) :
    ∃ a, m.result c = .ok a ∧ (f a).result (m.final c) = .ok b ∧
      (m >>= f).final c = (f a).final (m.final c) := by
  obtain ⟨a, hm, hf⟩ := result_bind_eq_ok.mp h
  exact ⟨a, hm, hf, final_bind_of_ok hm⟩

/-- A variable of that name, with the next slot, has been added. -/
def AddsVar (name : Ident) (c c' : Cg) : Prop :=
  ∃ var : CgVar, c'.scope = var :: c.scope ∧ var.name = name ∧
    var.alloca = .alloca c.nextSlot ∧ c'.nextSlot = c.nextSlot + 1

theorem addsVar_of_value {α β : Type} {m : Lower α} {var : α → StackSlot → CgVar}
    {k : α → StackSlot → β} {b : β} {name : Ident} (hm : SameScope c (m.final c))
    (hvar : ∀ a slot, (var a slot).name = name ∧ (var a slot).alloca = slot)
    (h : (do let a ← m
             let slot ← newSlot
             scopeAddVar (var a slot)
             return k a slot : Lower β).result c = .ok b) :
    AddsVar name c ((do let a ← m
                        let slot ← newSlot
                        scopeAddVar (var a slot)
                        return k a slot : Lower β).final c) := by
  obtain ⟨a, -, -, hfinal⟩ := bind_ok h
  obtain ⟨hscope, hslot⟩ := hm
  obtain ⟨hname, halloca⟩ := hvar a (.alloca c.nextSlot)
  rw [hfinal]
  refine ⟨var a (.alloca c.nextSlot), ?_, hname, halloca, ?_⟩
  · rw [← hscope, ← hslot]
    rfl
  · rw [← hslot]
    rfl

/-- A declaration adds its variable. -/
theorem buildVarDecl_addsVar {name : Ident} {type : VarType} {typeDesc : Option TypeDescriptor}
    {init : ASTExpr} {isConst : Bool} {code : List CodeStmt}
    (h : (buildVarDecl (builder n) (some fn) name type typeDesc init isConst).result c =
      .ok code) :
    AddsVar name c
      ((buildVarDecl (builder n) (some fn) name type typeDesc init isConst).final c) := by
  have hkeeps := builder_keepsScope n c
  unfold buildVarDecl at h ⊢
  dsimp only at h ⊢
  split at h
  · exact addsVar_of_value (sameScope_of_keeps (hkeeps.exprUnboxed (some fn) init))
      (fun _ _ => ⟨rfl, rfl⟩) h
  · exact addsVar_of_value (sameScope_of_keeps (hkeeps.expr (some fn) init))
      (fun _ _ => ⟨rfl, rfl⟩) h

/-- An assignment to a local variable, and a compound one, adds nothing. -/
theorem buildVarAssign_sameScope {name : Ident} {value : ASTExpr} {op : Option Char}
    (h : op.isSome ∨ (c.scopeFindVar name).isSome) :
    SameScope c ((buildVarAssign (builder n) (some fn) name value op).final c) := by
  have hevents := sameScope_eventInvariant c
  have hkeeps := builder_keepsScope n c
  unfold buildVarAssign
  rw [final_get_bind]
  cases hslot : unboxedSlot c (some fn) name with
  | some slot =>
      obtain ⟨type, slot⟩ := slot
      cases op with
      | some op => exact keeps_buildUnboxedCompoundAssign hkeeps (some fn) slot type value op _ ⟨rfl, rfl⟩
      | none => exact keeps_buildUnboxedAssign hkeeps (some fn) slot type value _ ⟨rfl, rfl⟩
  | none =>
      cases op with
      | some op =>
          exact keeps_buildBoxedCompoundAssign hevents hkeeps (some fn) name value op c ⟨rfl, rfl⟩
      | none =>
          obtain ⟨var, hvar⟩ := Option.isSome_iff_exists.mp (h.resolve_left (by simp))
          have hvalue := sameScope_of_keeps (hkeeps.expr (some fn) value)
          dsimp only
          unfold buildBoxedAssign
          rw [final_bind]
          split
          · rw [final_get_bind]
            have hlocal : localVar (((builder n).expr (some fn) value).final c) (some fn) name =
                some var := by
              unfold localVar Cg.scopeFindVar
              rw [hvalue.1]
              exact hvar
            rw [hlocal]
            exact hvalue
          · exact hvalue

/-- A list of statements that has been built has been built one by one. -/
theorem buildStmts_cons_ok {g : Option CgCallee} {s : ASTStmt} {stmts : List ASTStmt}
    {code : List CodeStmt} (h : (buildStmts (builder n) g (s :: stmts)).result c = .ok code) :
    ∃ first rest, ((builder n).stmt g s).result c = .ok first ∧
      (buildStmts (builder n) g stmts).result (((builder n).stmt g s).final c) = .ok rest ∧
      code = first ++ rest ∧
      (buildStmts (builder n) g (s :: stmts)).final c =
        (buildStmts (builder n) g stmts).final (((builder n).stmt g s).final c) := by
  unfold buildStmts at h ⊢
  rw [List.mapM_cons] at h ⊢
  obtain ⟨codes, hcodes, hflat, hfinal⟩ := bind_ok h
  obtain ⟨first, hfirst, hothers, hfinal'⟩ := bind_ok hcodes
  obtain ⟨rest, hrest, hcons, hfinal''⟩ := bind_ok hothers
  cases hcons
  cases hflat
  refine ⟨first, rest.flatten, hfirst, ?_, List.flatten_cons, ?_⟩
  · rw [result_bind, hrest]
    rfl
  · rw [hfinal, hfinal', hfinal'', final_bind_pure]
    rfl

theorem buildIf_ok {condition : ASTExpr} {thenBranch elseBranch : Option (List ASTStmt)}
    {code : List CodeStmt}
    (h : (buildIf (builder n) (some fn) condition thenBranch elseBranch).result c = .ok code) :
    let c₁ := (buildCondition (builder n) (some fn) condition).final c
    let c₂ := (buildBody (builder n) (some fn) thenBranch).final c₁
    (∃ x, (buildBody (builder n) (some fn) thenBranch).result c₁ = .ok x) ∧
      (∃ x, (buildBody (builder n) (some fn) elseBranch).result c₂ = .ok x) ∧
      (buildIf (builder n) (some fn) condition thenBranch elseBranch).final c =
        (buildBody (builder n) (some fn) elseBranch).final c₂ := by
  intro c₁ c₂
  unfold buildIf at h ⊢
  obtain ⟨condition', -, h, hfinal⟩ := bind_ok h
  obtain ⟨thenCode, hthen, h, hfinal'⟩ := bind_ok h
  rw [hfinal, hfinal']
  cases elseBranch with
  | none => exact ⟨⟨thenCode, hthen⟩, ⟨[], rfl⟩, rfl⟩
  | some stmts =>
      obtain ⟨elseCode, helse, -, hfinal''⟩ := bind_ok h
      refine ⟨⟨thenCode, hthen⟩, ⟨elseCode, helse⟩, ?_⟩
      rw [hfinal'']
      rfl

/-- The body of a loop is built where `loopStart` says, and the state after it has
its scope. -/
theorem buildLoop_ok {α : Type} {head : Lower α} {body : Option (List ASTStmt)}
    {r : α × List CodeStmt}
    (h : (buildLoop (builder n) (some fn) head body).result c = .ok r) :
    (∃ x, (buildBody (builder n) (some fn) body).result (loopStart head c) = .ok x) ∧
      SameScope ((buildBody (builder n) (some fn) body).final (loopStart head c))
        ((buildLoop (builder n) (some fn) head body).final c) := by
  unfold buildLoop at h ⊢
  rw [result_get_bind] at h
  rw [final_get_bind]
  obtain ⟨u, -, h, hfinal⟩ := bind_ok h
  obtain ⟨a, -, h, hfinal'⟩ := bind_ok h
  obtain ⟨code, hcode, -, hfinal''⟩ := bind_ok h
  refine ⟨⟨code, hcode⟩, ?_⟩
  rw [hfinal, hfinal']
  exact hfinal'' ▸ ⟨rfl, rfl⟩

theorem buildFor_ok {name : Ident} {range : ASTExpr} {body : Option (List ASTStmt)}
    {code : List CodeStmt}
    (h : (buildFor (builder n) (some fn) name range body).result c = .ok code) :
    ∃ r, (buildLoop (builder n) (some fn) (pure ()) body).result c = .ok r ∧
      (buildFor (builder n) (some fn) name range body).final c =
        (buildLoop (builder n) (some fn) (pure ()) body).final c := by
  unfold buildFor at h ⊢
  split at h
  · cases h
  · obtain ⟨r, hr, -, hfinal⟩ := bind_ok h
    exact ⟨r, hr, hfinal⟩

theorem sameScope_loopStart {α : Type} {head : Lower α} (h : ∀ c, SameScope c (head.final c)) :
    SameScope c (loopStart head c) :=
  h { c with inLoop := true }

/-! ### Classes -/

/-- The body of a method has a scope of its own. -/
theorem buildMethodFunction_scope {cls : CgClass} {name : Ident} {decl : FuncDecl}
    {f : LLVMFunction}
    (h : (buildMethodFunction (builder n) cls name decl).result c = .ok f) :
    ((buildMethodFunction (builder n) cls name decl).final c).scope = c.scope := by
  unfold buildMethodFunction at h ⊢
  obtain ⟨fn, -, h, hfinal⟩ := bind_ok h
  rw [result_get_bind] at h
  rw [hfinal, final_get_bind]
  obtain ⟨u, -, h, hfinal'⟩ := bind_ok h
  obtain ⟨code, -, h, hfinal''⟩ := bind_ok h
  rw [hfinal', hfinal'']
  rfl

theorem buildConstructor_scope {cls : CgClass}
    (h : (buildConstructor (builder n) cls).result c = .ok ()) :
    ((buildConstructor (builder n) cls).final c).scope = c.scope := by
  unfold buildConstructor at h ⊢
  split at h
  · rfl
  · obtain ⟨f, hf, -, hfinal⟩ := bind_ok h
    rw [hfinal]
    exact buildMethodFunction_scope hf

theorem buildMethods_scope {cls : CgClass} {index : ℕ} {methods : List FuncDecl}
    (h : (buildMethods (builder n) cls index methods).result c = .ok ()) :
    ((buildMethods (builder n) cls index methods).final c).scope = c.scope := by
  induction methods generalizing index c with
  | nil => rfl
  | cons decl methods ih =>
      unfold buildMethods at h ⊢
      split at h
      · rename_i hinit
        obtain ⟨f, hf, h, hfinal⟩ := bind_ok h
        obtain ⟨u, -, h, hfinal'⟩ := bind_ok h
        rw [if_pos hinit, hfinal, hfinal', ih h]
        exact buildMethodFunction_scope hf
      · rename_i hinit
        rw [if_neg hinit]
        exact ih h

theorem buildClassDecl_scope {name : Ident} {code : List CodeStmt}
    (h : (buildClassDecl (builder n) name).result c = .ok code) :
    ((buildClassDecl (builder n) name).final c).scope = c.scope := by
  unfold buildClassDecl at h ⊢
  rw [result_get_bind] at h
  rw [final_get_bind]
  split at h
  · cases h
  · obtain ⟨u, hconstructor, h, hfinal⟩ := bind_ok h
    obtain ⟨u, hmethods, -, hfinal'⟩ := bind_ok h
    rw [hfinal, hfinal']
    exact (buildMethods_scope hmethods).trans (buildConstructor_scope hconstructor)

end Builders

/-! ### What the analysis adds -/

/-- No variable is deeper than the scope that is open. -/
def Cg.Nested (a : Cg) : Prop :=
  ∀ v ∈ a.globalVars, v.isInitialized ≤ a.scopeDepth

/-- Variables have been declared in the scope that is open. -/
structure Declares (a a' : Cg) : Prop where
  depth_eq : a'.scopeDepth = a.scopeDepth
  vars : ∃ new, a'.globalVars = new ++ a.globalVars ∧ ∀ v ∈ new, v.isInitialized = a.scopeDepth

/-- The two states have the same variables and the same scope open. -/
def SameVars (a a' : Cg) : Prop :=
  a'.globalVars = a.globalVars ∧ a'.scopeDepth = a.scopeDepth

section Analysis

variable {a a' a'' : Cg}

theorem SameVars.declares (h : SameVars a a') : Declares a a' :=
  ⟨h.2, [], h.1, by simp⟩

theorem Declares.trans (h : Declares a a') (h' : Declares a' a'') : Declares a a'' := by
  obtain ⟨new, hvars, hnew⟩ := h.vars
  obtain ⟨new', hvars', hnew'⟩ := h'.vars
  refine ⟨h'.depth_eq.trans h.depth_eq, new' ++ new, ?_, ?_⟩
  · rw [hvars', hvars, List.append_assoc]
  · intro v hv
    rcases List.mem_append.mp hv with hv | hv
    · rw [hnew' v hv, h.depth_eq]
    · exact hnew v hv

theorem Declares.nested (h : Declares a a') (ha : a.Nested) : a'.Nested := by
  obtain ⟨new, hvars, hnew⟩ := h.vars
  intro v hv
  rw [hvars] at hv
  rw [h.depth_eq]
  rcases List.mem_append.mp hv with hv | hv
  · exact (hnew v hv).le
  · exact ha v hv

theorem SameVars.trans (h : SameVars a a') (h' : SameVars a' a'') : SameVars a a'' :=
  ⟨h'.1.trans h.1, h'.2.trans h.2⟩

theorem SameVars.nested (h : SameVars a a') (ha : a.Nested) : a'.Nested :=
  h.declares.nested ha

theorem enterScope_nested (ha : a.Nested) : a.enterScope.Nested :=
  fun v hv => (ha v hv).trans (Nat.le_succ _)

/-- When a block ends, what has been declared in it goes away. -/
theorem leaveScope_sameVars (ha : a.Nested) (h : Declares a.enterScope a') :
    SameVars a a'.leaveScope := by
  obtain ⟨new, hvars, hnew⟩ := h.vars
  have hdepth : a'.scopeDepth = a.scopeDepth + 1 := h.depth_eq
  have hvars' : a'.globalVars = new ++ a.globalVars := hvars
  constructor
  · show a'.globalVars.filter (fun v => v.isInitialized < a'.scopeDepth) = a.globalVars
    rw [hvars', List.filter_append, hdepth]
    have hdrop : new.filter (fun v => v.isInitialized < a.scopeDepth + 1) = [] := by
      refine List.filter_eq_nil_iff.mpr fun v hv => ?_
      have hv' : v.isInitialized = a.scopeDepth + 1 := hnew v hv
      simp [hv']
    have hkeep : a.globalVars.filter (fun v => v.isInitialized < a.scopeDepth + 1) =
        a.globalVars := by
      refine List.filter_eq_self.mpr fun v hv => ?_
      simpa using Nat.lt_succ_of_le (ha v hv)
    rw [hdrop, hkeep, List.nil_append]
  · show a'.scopeDepth - 1 = a.scopeDepth
    rw [hdepth]
    rfl

/-- A variable of that name has been declared in front. -/
def DeclaresVar (name : Ident) (a a' : Cg) : Prop :=
  a'.scopeDepth = a.scopeDepth ∧
    ∃ v : CgVar, a'.globalVars = v :: a.globalVars ∧ v.name = name ∧
      v.isInitialized = a.scopeDepth

theorem declareVar_declaresVar {name : Ident} {typeDesc : Option TypeDescriptor} {isConst : Bool}
    (h : a.declareVar name typeDesc isConst = .ok a') : DeclaresVar name a a' := by
  unfold Cg.declareVar at h
  split at h
  · cases h
  · cases typeDesc with
    | none => cases h
    | some d =>
        cases h
        exact ⟨rfl, _, rfl, rfl, rfl⟩

theorem DeclaresVar.declares {name : Ident} (h : DeclaresVar name a a') : Declares a a' := by
  obtain ⟨hdepth, v, hvars, -, hv⟩ := h
  exact ⟨hdepth, [v], hvars, by simpa using hv⟩

theorem declareStruct_sameVars {name : Ident} {fields : List (Ident × TypeDescriptor)}
    (h : a.declareStructFromAst name fields = .ok a') : SameVars a a' := by
  unfold Cg.declareStructFromAst at h
  split at h <;> cases h
  exact ⟨rfl, rfl⟩

theorem declareClass_sameVars {name : Ident} {parentName : Option Ident}
    {fields : List (Ident × TypeDescriptor)} {methods : List FuncDecl}
    {constructor : Option FuncDecl}
    (h : a.declareClassFromAst name parentName fields methods constructor = .ok a') :
    SameVars a a' := by
  unfold Cg.declareClassFromAst at h
  split at h <;> cases h
  exact ⟨rfl, rfl⟩

/-- Everything that the analysis does keeps its variables nested. -/
theorem stable_nested : Stable Cg.Nested where
  enterScope _ h := enterScope_nested h
  leaveScope a h := by
    intro v hv
    obtain ⟨hv, hlt⟩ := List.mem_filter.mp hv
    have hlt' : v.isInitialized < a.scopeDepth := by simpa using hlt
    exact Nat.le_sub_one_of_lt hlt'
  declareVar _ _ _ _ _ h ha := (declareVar_declaresVar h).declares.nested ha
  declareStruct _ _ _ _ h ha := (declareStruct_sameVars h).nested ha
  declareClass _ _ _ _ _ _ _ h ha := (declareClass_sameVars h).nested ha

/-- So the variables are nested wherever the analysis of a program comes to a
function. -/
theorem analyzeProgram_nested {program program' : ASTStmtList}
    (h : (analyzeProgram program).run a = .ok (program', a')) (ha : a.globalVars = []) :
    a'.Nested := by
  have hstart : a.Nested := by
    intro v hv
    rw [ha] at hv
    cases hv
  exact analyzeProgram_keeps stable_nested program _ _ _ h hstart

/-- The type of a declared variable is resolved once. -/
theorem resolveClass_resolveClass (a : Cg) (d : TypeDescriptor) :
    resolveClass a (resolveClass a d) = resolveClass a d := by
  cases d with
  | struct name fields =>
      cases hclass : a.findClass name with
      | none => simp [resolveClass, hclass]
      | some c => simp [resolveClass, hclass, CgClass.typeDesc]
  | _ => rfl

end Analysis

/-! ### The invariant -/

/-- What the status of a name says of the two slots. -/
def NameStatus.Holds (home slot : Option StackSlot) : NameStatus → Prop
  | .noSlot => home = none ∧ slot = none
  | .own => ∃ s, home = some s ∧ slot = some s
  | .captured => ∃ s, slot = some s ∧ home ≠ some s

/-- **The invariant**: what the text says of every name is so. -/
def Tracks (σ : Statuses) (p : ScopePair) : Prop :=
  ∀ name, (σ name).Holds (p.home name) (p.slotOf name)

/-- The variables of the analysis go with the slots, which have been made
before. -/
structure ScopePair.WellFormed (p : ScopePair) : Prop where
  length_eq : p.slots.length = p.analysis.globalVars.length
  nested : p.analysis.Nested
  slots_lt : ∀ slot, some slot ∈ p.slots → ∃ k, k < p.codegen.nextSlot ∧ slot = .alloca k

section Invariant

variable {p q : ScopePair} {σ : Statuses} {name x : Ident}

theorem home_eq (h : p.analysis.Nested) (name : Ident) :
    p.home name =
      ((p.analysis.globalVars.zip p.slots).find? fun v => v.1.name == name).bind Prod.snd := by
  unfold ScopePair.home
  congr 1
  refine List.find?_congr ?_
  intro v hv
  have hle := h v.1 (List.of_mem_zip hv).1
  simp [hle]

/-- The slot that the analysis knows is one of those that have been made. -/
theorem home_lt (h : p.WellFormed) {slot : StackSlot} (hhome : p.home name = some slot) :
    ∃ k, k < p.codegen.nextSlot ∧ slot = .alloca k := by
  unfold ScopePair.home at hhome
  obtain ⟨v, hv, hslot⟩ := Option.bind_eq_some_iff.mp hhome
  have hmem := (List.of_mem_zip (List.mem_of_find?_eq_some hv)).2
  rw [hslot] at hmem
  exact h.slots_lt slot hmem

/-- With the same variables and slots the analysis resolves names to the same
slots. -/
theorem home_congr (hp : p.analysis.Nested) (hq : q.analysis.Nested)
    (hvars : q.analysis.globalVars = p.analysis.globalVars) (hslots : q.slots = p.slots) :
    q.home = p.home := by
  funext name
  rw [home_eq hp, home_eq hq, hvars, hslots]

/-- A variable that is declared in front hides the others of its name. -/
theorem home_declare {slot : Option StackSlot} (hp : p.analysis.Nested)
    (hdeclare : DeclaresVar name p.analysis q.analysis) (hslots : q.slots = slot :: p.slots)
    (x : Ident) : q.home x = if x = name then slot else p.home x := by
  have hq := hdeclare.declares.nested hp
  obtain ⟨-, v, hvars, hname, -⟩ := hdeclare
  rw [home_eq hp, home_eq hq, hvars, hslots, List.zip_cons_cons, List.find?_cons]
  by_cases hx : x = name
  · have heq : (v.name == x) = true := by simpa [hx] using hname
    rw [if_pos hx, heq]
    rfl
  · have hne : (v.name == x) = false := by
      rw [beq_eq_false_iff_ne, hname]
      exact Ne.symm hx
    rw [if_neg hx, hne]

theorem slotOf_congr (h : q.codegen.scope = p.codegen.scope) : q.slotOf = p.slotOf := by
  funext name
  unfold ScopePair.slotOf Cg.scopeFindVar
  rw [h]

/-! ### Uses -/

/-- A name resolves to one declaration unless it is captured. -/
theorem slotOf_eq_home_iff (htracks : Tracks σ p) :
    p.slotOf name = p.home name ↔ σ name ≠ .captured := by
  have hholds := htracks name
  cases hstatus : σ name with
  | noSlot =>
      rw [hstatus] at hholds
      obtain ⟨hhome, hslot⟩ := hholds
      simp [hhome, hslot]
  | own =>
      rw [hstatus] at hholds
      obtain ⟨s, hhome, hslot⟩ := hholds
      simp [hhome, hslot]
  | captured =>
      rw [hstatus] at hholds
      obtain ⟨s, hslot, hhome⟩ := hholds
      simpa [hslot] using Ne.symm hhome

/-- A plain assignment agrees when the name has its own slot. -/
theorem plainAssign_agrees_iff (htracks : Tracks σ p) :
    (⟨p, name, .assign none⟩ : VarUse).Agrees ↔ σ name = .own := by
  have hholds := htracks name
  unfold VarUse.Agrees VarUse.codegenSlot
  dsimp only
  cases hstatus : σ name with
  | noSlot =>
      rw [hstatus] at hholds
      obtain ⟨hhome, hslot⟩ := hholds
      simp [hhome]
  | own =>
      rw [hstatus] at hholds
      obtain ⟨s, hhome, hslot⟩ := hholds
      simp [hhome, hslot]
  | captured =>
      rw [hstatus] at hholds
      obtain ⟨s, hslot, hhome⟩ := hholds
      simpa [hslot] using Ne.symm hhome

/-- **The uses of a statement agree exactly when the text allows them.** -/
theorem ownUses_agree_iff (htracks : Tracks σ p) (s : ASTStmt) :
    (∀ u ∈ p.ownUses s, u.Agrees) ↔ σ.AllowsUses s := by
  have hread : ∀ name, (⟨p, name, .read⟩ : VarUse).Agrees ↔ σ name ≠ .captured :=
    fun name => slotOf_eq_home_iff htracks
  have hassign : ∀ name op, (⟨p, name, .assign op⟩ : VarUse).Agrees ↔
      if op.isSome then σ name ≠ .captured else σ name = .own := by
    intro name op
    cases op with
    | none => exact plainAssign_agrees_iff htracks
    | some op => exact slotOf_eq_home_iff htracks
  unfold ScopePair.ownUses Statuses.AllowsUses
  constructor
  · intro h
    constructor
    · intro name hname
      refine (hread name).mp (h _ (List.mem_append_left _ ?_))
      exact List.mem_map.mpr ⟨name, hname, rfl⟩
    · intro name op hname
      refine (hassign name op).mp (h _ (List.mem_append_right _ ?_))
      exact List.mem_map.mpr ⟨(name, op), by simp [hname], rfl⟩
  · rintro ⟨hreads, hassigns⟩ u hu
    rcases List.mem_append.mp hu with hu | hu
    · obtain ⟨name, hname, rfl⟩ := List.mem_map.mp hu
      exact (hread name).mpr (hreads name hname)
    · obtain ⟨⟨name, op⟩, hname, rfl⟩ := List.mem_map.mp hu
      refine (hassign name op).mpr (hassigns name op ?_)
      simpa using hname

/-! ### Steps of the walk -/

/-- The invariant after a declaration: both passes have the new slot. -/
theorem tracks_declare (hp : p.WellFormed) (htracks : Tracks σ p)
    (hanalysis : DeclaresVar name p.analysis q.analysis)
    (hcodegen : AddsVar name p.codegen q.codegen)
    (hslots : q.slots = ScopePair.newestSlot q.codegen :: p.slots) :
    Tracks (σ.declare name) q := by
  obtain ⟨var, hscope, hname, halloca, -⟩ := hcodegen
  have hnewest : ScopePair.newestSlot q.codegen = some var.alloca := by
    unfold ScopePair.newestSlot
    rw [hscope]
    rfl
  intro x
  have hhome := home_declare hp.nested hanalysis hslots x
  have hslot : q.slotOf x = if x = name then some var.alloca else p.slotOf x := by
    unfold ScopePair.slotOf Cg.scopeFindVar
    rw [hscope, List.find?_cons]
    by_cases hx : x = name
    · have heq : (var.name == x) = true := by simpa [hx] using hname
      rw [if_pos hx, heq]
      rfl
    · have hne : (var.name == x) = false := by
        rw [beq_eq_false_iff_ne, hname]
        exact Ne.symm hx
      rw [if_neg hx, hne]
  rw [hhome, hslot, hnewest]
  unfold Statuses.declare
  by_cases hx : x = name
  · rw [if_pos hx, if_pos hx, if_pos hx]
    exact ⟨var.alloca, rfl, rfl⟩
  · rw [if_neg hx, if_neg hx, if_neg hx]
    exact htracks x

theorem wellFormed_declare (hp : p.WellFormed)
    (hanalysis : DeclaresVar name p.analysis q.analysis)
    (hcodegen : AddsVar name p.codegen q.codegen)
    (hslots : q.slots = ScopePair.newestSlot q.codegen :: p.slots) : q.WellFormed := by
  obtain ⟨var, hscope, -, halloca, hnext⟩ := hcodegen
  have hnewest : ScopePair.newestSlot q.codegen = some var.alloca := by
    unfold ScopePair.newestSlot
    rw [hscope]
    rfl
  refine ⟨?_, hanalysis.declares.nested hp.nested, ?_⟩
  · obtain ⟨-, v, hvars, -, -⟩ := hanalysis
    rw [hslots, hvars, List.length_cons, List.length_cons, hp.length_eq]
  · intro slot hslot
    rw [hnext]
    rw [hslots, hnewest] at hslot
    rcases List.mem_cons.mp hslot with heq | hslot
    · cases heq
      exact ⟨p.codegen.nextSlot, Nat.lt_succ_self _, halloca⟩
    · obtain ⟨k, hk, heq⟩ := hp.slots_lt slot hslot
      exact ⟨k, hk.trans (Nat.lt_succ_self _), heq⟩

theorem AddsVar.growsBy {c c' : Cg} (h : AddsVar name c c') : GrowsBy [name] c c' := by
  obtain ⟨var, hscope, hname, halloca, hnext⟩ := h
  have hlt : c.nextSlot < c'.nextSlot := hnext ▸ Nat.lt_succ_self _
  refine ⟨⟨[var], hscope, ?_, ?_⟩, hlt.le⟩
  · intro v hv
    cases List.mem_singleton.mp hv
    exact ⟨List.mem_singleton.mpr hname, c.nextSlot, le_rfl, hlt, halloca⟩
  · intro x hx
    exact ⟨var, List.mem_singleton_self var, hname.trans (List.mem_singleton.mp hx).symm⟩

/-- The invariant at the start of the body of a loop: the loop variable hides what
has its name from the analysis only. -/
theorem tracks_enterLoop {typeDesc : Option TypeDescriptor} {codegen a : Cg}
    (hp : p.WellFormed) (htracks : Tracks σ p) (hsame : SameScope p.codegen codegen)
    (hdeclare : p.analysis.enterScope.declareVar name typeDesc false = .ok a) :
    Tracks (σ.loopVar name) (p.enterLoop name typeDesc codegen) := by
  have hanalysis : (p.enterLoop name typeDesc codegen).analysis = a := declared_of_ok hdeclare
  have hslot : (p.enterLoop name typeDesc codegen).slotOf = p.slotOf := slotOf_congr hsame.1
  have henter : (p.enter codegen).home = p.home :=
    home_congr hp.nested (enterScope_nested hp.nested) rfl rfl
  have hhome : ∀ x, (p.enterLoop name typeDesc codegen).home x =
      if x = name then none else p.home x := by
    intro x
    rw [← henter]
    have hvar : DeclaresVar name (p.enter codegen).analysis
        (p.enterLoop name typeDesc codegen).analysis := by
      rw [hanalysis]
      exact declareVar_declaresVar hdeclare
    have hnested : (p.enter codegen).analysis.Nested := enterScope_nested hp.nested
    exact home_declare hnested hvar rfl x
  intro x
  rw [hslot, hhome]
  have hholds := htracks x
  unfold Statuses.loopVar
  by_cases hx : x = name
  · subst hx
    rw [if_pos rfl]
    cases hstatus : σ x with
    | noSlot =>
        rw [hstatus] at hholds
        simpa [hstatus] using ⟨rfl, hholds.2⟩
    | own =>
        rw [hstatus] at hholds
        obtain ⟨s, -, hslot⟩ := hholds
        simpa using ⟨s, hslot, nofun⟩
    | captured =>
        rw [hstatus] at hholds
        obtain ⟨s, hslot, -⟩ := hholds
        simpa using ⟨s, hslot, nofun⟩
  · rw [if_neg hx, if_neg (fun h => hx h.1)]
    exact hholds

theorem wellFormed_enter {codegen : Cg} (hp : p.WellFormed)
    (hsame : SameScope p.codegen codegen) : (p.enter codegen).WellFormed where
  length_eq := hp.length_eq
  nested := enterScope_nested hp.nested
  slots_lt := fun slot hslot => by
    obtain ⟨k, hk, heq⟩ := hp.slots_lt slot hslot
    exact ⟨k, hk.trans_le hsame.2.ge, heq⟩

theorem wellFormed_enterLoop {typeDesc : Option TypeDescriptor} {codegen a : Cg}
    (hp : p.WellFormed) (hsame : SameScope p.codegen codegen)
    (hdeclare : p.analysis.enterScope.declareVar name typeDesc false = .ok a) :
    (p.enterLoop name typeDesc codegen).WellFormed := by
  have hanalysis : (p.enterLoop name typeDesc codegen).analysis = a := declared_of_ok hdeclare
  have hvar := declareVar_declaresVar hdeclare
  refine ⟨?_, ?_, ?_⟩
  · rw [hanalysis]
    obtain ⟨-, v, hvars, -, -⟩ := hvar
    rw [hvars, List.length_cons]
    exact congrArg (· + 1) hp.length_eq
  · rw [hanalysis]
    exact hvar.declares.nested (enterScope_nested hp.nested)
  · intro slot hslot
    rcases List.mem_cons.mp hslot with heq | hslot
    · cases heq
    · obtain ⟨k, hk, heq⟩ := hp.slots_lt slot hslot
      exact ⟨k, hk.trans_le hsame.2.ge, heq⟩

theorem tracks_enter {codegen : Cg} (hp : p.WellFormed) (htracks : Tracks σ p)
    (hsame : SameScope p.codegen codegen) : Tracks σ (p.enter codegen) := by
  intro x
  have hhome : (p.enter codegen).home = p.home :=
    home_congr hp.nested (enterScope_nested hp.nested) rfl rfl
  have hslot : (p.enter codegen).slotOf = p.slotOf := slotOf_congr hsame.1
  rw [hhome, hslot]
  exact htracks x

/-- **The invariant after a block**: the analysis is where it was, and the
generator has captured the names that the block declares. -/
theorem tracks_leave {names : List Ident} (hp : p.WellFormed) (htracks : Tracks σ p)
    (hvars : SameVars p.analysis q.analysis) (hslots : q.slots = p.slots)
    (hgrows : GrowsBy names p.codegen q.codegen) : Tracks (σ.leave names) q := by
  have hhome := home_congr hp.nested (hvars.nested hp.nested) hvars.1 hslots
  intro x
  rw [hhome]
  unfold Statuses.leave
  by_cases hx : x ∈ names
  · rw [if_pos hx]
    obtain ⟨v, k, hfind, hk, halloca⟩ := hgrows.scopeFindVar_of_mem hx
    refine ⟨v.alloca, ?_, fun hcaught => ?_⟩
    · unfold ScopePair.slotOf
      rw [hfind]
      rfl
    · obtain ⟨j, hj, heq⟩ := home_lt hp hcaught
      rw [halloca] at heq
      cases heq
      exact absurd hj (not_lt.mpr hk)
  · rw [if_neg hx]
    have hslot : q.slotOf x = p.slotOf x := by
      unfold ScopePair.slotOf
      rw [hgrows.scopeFindVar_of_not_mem hx]
    rw [hslot]
    exact htracks x

theorem wellFormed_leave {names : List Ident} (hp : p.WellFormed)
    (hvars : SameVars p.analysis q.analysis) (hslots : q.slots = p.slots)
    (hgrows : GrowsBy names p.codegen q.codegen) : q.WellFormed := by
  refine ⟨?_, hvars.nested hp.nested, ?_⟩
  · rw [hslots, hvars.1, hp.length_eq]
  · intro slot hslot
    rw [hslots] at hslot
    obtain ⟨k, hk, heq⟩ := hp.slots_lt slot hslot
    exact ⟨k, hk.trans_le hgrows.nextSlot_le, heq⟩

end Invariant

/-! ### Statements -/

/-- What a statement that uses no captured name leaves. -/
structure Continues (σ : Statuses) (names : List Ident) (p q : ScopePair) (a : Cg) : Prop where
  analysis : q.analysis = a
  declares : Declares p.analysis a
  wellFormed : q.WellFormed
  tracks : Tracks σ q
  grows : GrowsBy names p.codegen q.codegen

section Statements

variable {n : ℕ} {fn : CgCallee} {p : ScopePair} {σ : Statuses} {s : ASTStmt} {a : Cg}

/-- After a statement whose blocks have ended. -/
theorem continues_leave {names : List Ident} {q : ScopePair} (hp : p.WellFormed)
    (htracks : Tracks σ p) (hanalysis : q.analysis = a) (hvars : SameVars p.analysis a)
    (hslots : q.slots = p.slots) (hgrows : GrowsBy names p.codegen q.codegen) :
    Continues (σ.leave names) names p q a where
  analysis := hanalysis
  declares := hvars.declares
  wellFormed := wellFormed_leave hp (hanalysis ▸ hvars) hslots hgrows
  tracks := tracks_leave hp htracks (hanalysis ▸ hvars) hslots hgrows
  grows := hgrows

/-- The result for a statement. -/
def StmtAgrees (n : ℕ) (fn : CgCallee) (σ : Statuses) (p : ScopePair) (s : ASTStmt) (a : Cg) :
    Prop :=
  ((∀ u ∈ stmtVarUses n fn p s, u.Agrees) ↔ ScopedStmt σ s) ∧
    (ScopedStmt σ s → Continues (σ.after s) (declaredIn s) p (p.after n fn s) a)

/-- What the statements of a block leave before the block ends. -/
structure LeavesOpen (names : List Ident) (p : ScopePair) (after a c : Cg) : Prop where
  analysis : after = a
  declares : Declares p.analysis a
  grows : GrowsBy names p.codegen c

/-- The result for the statements of a block. -/
def BodyAgrees (n : ℕ) (fn : CgCallee) (σ : Statuses) (p : ScopePair)
    (body : Option (List ASTStmt)) (a : Cg) : Prop :=
  ((∀ u ∈ bodyVarUses n fn p body, u.Agrees) ↔ ScopedBody σ body) ∧
    (ScopedBody σ body → LeavesOpen (declaredInBody body) p (afterBody p.analysis body) a
      ((buildBody (builder n) (some fn) body).final p.codegen))

/-- The result for a statement with no statements in it that declares no
variable. -/
theorem stmtAgrees_simple (hp : p.WellFormed) (htracks : Tracks σ p)
    (huses : stmtVarUses n fn p s = p.ownUses s) (hscoped : ScopedStmt σ s = σ.AllowsUses s)
    (hafter : σ.after s = σ.leave []) (hnames : declaredIn s = [])
    (hslots : (p.after n fn s).slots = p.slots) (hanalysis : afterStmt p.analysis s = a)
    (hvars : SameVars p.analysis a)
    (hgrows : σ.AllowsUses s → GrowsBy [] p.codegen (p.after n fn s).codegen) :
    StmtAgrees n fn σ p s a := by
  unfold StmtAgrees
  rw [huses, hscoped, hafter, hnames]
  refine ⟨ownUses_agree_iff htracks s, fun hallows => ?_⟩
  exact continues_leave hp htracks hanalysis hvars hslots (hgrows hallows)

/-- A statement that only evaluates expressions. -/
theorem growsBy_of_keeps {m : Lower (List CodeStmt)}
    (h : ∀ c : Cg, Keeps (SameScope c) m) : GrowsBy [] p.codegen (m.final p.codegen) :=
  (sameScope_of_keeps (h p.codegen)).growsBy

theorem stmtAgrees_varDecl {name : Ident} {type : VarType} {typeDesc : Option TypeDescriptor}
    {declared : TypeDescriptor} {init : ASTExpr} {isConst : Bool} {code : List CodeStmt}
    (hp : p.WellFormed) (htracks : Tracks σ p)
    (htype : typeDesc = some (resolveClass p.analysis declared))
    (hdeclare : p.analysis.declareVar name typeDesc isConst = .ok a)
    (hbuilt : ((builder n).stmt (some fn) (.varDecl name type typeDesc init isConst)).result
      p.codegen = .ok code) :
    StmtAgrees n fn σ p (.varDecl name type typeDesc init isConst) a := by
  cases n with
  | zero => cases hbuilt
  | succ n =>
      have hadds : AddsVar name p.codegen
          (p.after (n + 1) fn (.varDecl name type typeDesc init isConst)).codegen :=
        buildVarDecl_addsVar hbuilt
      have hanalysis : afterStmt p.analysis (.varDecl name type typeDesc init isConst) = a := by
        rw [afterStmt, htype, Option.map_some, resolveClass_resolveClass, ← htype]
        exact declared_of_ok hdeclare
      have hvar := declareVar_declaresVar hdeclare
      have hvar' : DeclaresVar name p.analysis
          (afterStmt p.analysis (.varDecl name type typeDesc init isConst)) := by
        rw [hanalysis]
        exact hvar
      refine ⟨ownUses_agree_iff htracks _, fun _ => ?_⟩
      exact ⟨hanalysis, hvar.declares, wellFormed_declare hp hvar' hadds rfl,
        tracks_declare hp htracks hvar' hadds rfl, hadds.growsBy⟩

/-- An assignment that the text allows is to a local variable or a compound
one. -/
theorem growsBy_varAssign {name : Ident} {value : ASTExpr} {op : Option Char}
    (htracks : Tracks σ p) (hallows : σ.AllowsUses (.varAssign name value op)) :
    GrowsBy [] p.codegen
      ((buildVarAssign (builder n) (some fn) name value op).final p.codegen) := by
  refine (buildVarAssign_sameScope ?_).growsBy
  have hop := hallows.2 name op rfl
  cases op with
  | some op => exact .inl rfl
  | none =>
      have hown : σ name = .own := hop
      have hholds := htracks name
      rw [hown] at hholds
      obtain ⟨s, -, hslot⟩ := hholds
      right
      obtain ⟨var, hvar, -⟩ := Option.map_eq_some_iff.mp hslot
      rw [hvar]
      rfl

/-- A statement with one block in it. -/
theorem stmtAgrees_block {body : Option (List ASTStmt)} {start : ScopePair} {σ' : Statuses}
    {a₁ after : Cg} (hp : p.WellFormed) (htracks : Tracks σ p)
    (huses : stmtVarUses n fn p s = p.ownUses s ++ bodyVarUses (n - 1) fn start body)
    (hscoped : ScopedStmt σ s ↔ σ.AllowsUses s ∧ ScopedBody σ' body)
    (hafter : σ.after s = σ.leave (declaredIn s)) (hnames : declaredIn s = declaredInBody body)
    (hslots : (p.after n fn s).slots = p.slots)
    (hanalysis : afterStmt p.analysis s = (afterBody start.analysis body).leaveScope)
    (hstart : Declares p.analysis.enterScope start.analysis)
    (hsame : SameScope p.codegen start.codegen)
    (hend : SameScope after (p.after n fn s).codegen)
    (hfinal : (buildBody (builder (n - 1)) (some fn) body).final start.codegen = after)
    (hbody : BodyAgrees (n - 1) fn σ' start body a₁) :
    StmtAgrees n fn σ p s a₁.leaveScope := by
  obtain ⟨hiff, hleaves⟩ := hbody
  unfold StmtAgrees
  rw [huses, hscoped, hafter, List.forall_mem_append]
  refine ⟨and_congr (ownUses_agree_iff htracks s) hiff, fun h => ?_⟩
  obtain ⟨hbodyAnalysis, hdeclares, hgrows⟩ := hleaves h.2
  rw [hfinal, ← hnames] at hgrows
  have hvars := leaveScope_sameVars hp.nested (hstart.trans hdeclares)
  rw [hbodyAnalysis] at hanalysis
  exact continues_leave hp htracks hanalysis hvars hslots
    (hgrows.congr hsame.1.symm hsame.2.symm hend.1 hend.2)

theorem declares_enter {body : Option (List ASTStmt)} {codegen : Cg}
    (_ : BodyAgrees n fn σ (p.enter codegen) body a) :
    Declares p.analysis.enterScope (p.enter codegen).analysis :=
  SameVars.declares ⟨rfl, rfl⟩

/-- A loop with a variable. -/
theorem stmtAgrees_loop {name : Ident} {typeDesc : Option TypeDescriptor}
    {body : Option (List ASTStmt)} {start after a₁ a₂ : Cg} (hp : p.WellFormed)
    (htracks : Tracks σ p) (hsame : SameScope p.codegen start)
    (hdeclare : p.analysis.enterScope.declareVar name typeDesc false = .ok a₁)
    (huses : stmtVarUses n fn p s =
      p.ownUses s ++ bodyVarUses (n - 1) fn (p.enterLoop name typeDesc start) body)
    (hscoped : ScopedStmt σ s ↔ σ.AllowsUses s ∧ ScopedBody (σ.loopVar name) body)
    (hafter : σ.after s = σ.leave (declaredIn s)) (hnames : declaredIn s = declaredInBody body)
    (hslots : (p.after n fn s).slots = p.slots)
    (hanalysis : afterStmt p.analysis s =
      (afterBody (p.analysis.enterScope.declared name typeDesc false) body).leaveScope)
    (hend : SameScope after (p.after n fn s).codegen)
    (hfinal : (buildBody (builder (n - 1)) (some fn) body).final start = after)
    (hbody : (p.enterLoop name typeDesc start).WellFormed →
      Tracks (σ.loopVar name) (p.enterLoop name typeDesc start) →
      BodyAgrees (n - 1) fn (σ.loopVar name) (p.enterLoop name typeDesc start) body a₂) :
    StmtAgrees n fn σ p s a₂.leaveScope := by
  have hstart : Declares p.analysis.enterScope (p.enterLoop name typeDesc start).analysis := by
    have heq : (p.enterLoop name typeDesc start).analysis = a₁ := declared_of_ok hdeclare
    rw [heq]
    exact (declareVar_declaresVar hdeclare).declares
  exact stmtAgrees_block hp htracks huses hscoped hafter hnames hslots hanalysis hstart hsame
    hend hfinal (hbody (wellFormed_enterLoop hp hsame hdeclare)
      (tracks_enterLoop hp htracks hsame hdeclare))

/-- An `if` with both branches: the second one is entered where the first one
leaves, and nothing is known there unless the first one is scoped. -/
theorem stmtAgrees_ifElse {condition : ASTExpr} {thenBranch : Option (List ASTStmt)}
    {stmts : List ASTStmt} {thenStart elseStart : Cg} {a₁ a₂ : Cg} (hp : p.WellFormed)
    (htracks : Tracks σ p) (hs : s = .ifStmt condition thenBranch (some stmts))
    (hthenStart : (buildCondition (builder (n - 1)) (some fn) condition).final p.codegen =
      thenStart)
    (helseStart : (buildBody (builder (n - 1)) (some fn) thenBranch).final thenStart = elseStart)
    (hfinal : (p.after n fn s).codegen =
      (buildStmts (builder (n - 1)) (some fn) stmts).final elseStart)
    (hthen : BodyAgrees (n - 1) fn σ (p.enter thenStart) thenBranch a₁)
    (helse : ∀ mid : ScopePair, mid.analysis = a₁.leaveScope → mid.codegen = elseStart →
      mid.WellFormed → Tracks (σ.leave (declaredInBody thenBranch)) mid →
      BodyAgrees (n - 1) fn (σ.leave (declaredInBody thenBranch)) (mid.enter elseStart)
        (some stmts) a₂) :
    StmtAgrees n fn σ p s a₂.leaveScope := by
  subst hs hthenStart helseStart
  have hsame : SameScope p.codegen
      ((buildCondition (builder (n - 1)) (some fn) condition).final p.codegen) :=
    sameScope_of_keeps (keeps_buildCondition (builder_keepsScope (n - 1) _) (some fn) condition)
  obtain ⟨hthenIff, hthenLeaves⟩ := hthen
  have hcontinue : ScopedBody σ thenBranch → ∃ mid : ScopePair,
      mid = ⟨(afterBody p.analysis.enterScope thenBranch).leaveScope, p.slots,
        (buildBody (builder (n - 1)) (some fn) thenBranch).final
          ((buildCondition (builder (n - 1)) (some fn) condition).final p.codegen)⟩ ∧
      mid.analysis = a₁.leaveScope ∧ SameVars p.analysis mid.analysis ∧
      GrowsBy (declaredInBody thenBranch) p.codegen mid.codegen := by
    intro hscoped
    obtain ⟨hanalysis, hdeclares, hgrows⟩ := hthenLeaves hscoped
    refine ⟨_, rfl, congrArg Cg.leaveScope hanalysis, ?_,
      hgrows.congr hsame.1.symm hsame.2.symm rfl rfl⟩
    have hvars := leaveScope_sameVars hp.nested hdeclares
    rw [← hanalysis] at hvars
    exact hvars
  have helse' : ScopedBody σ thenBranch → ∃ mid : ScopePair,
      mid = ⟨(afterBody p.analysis.enterScope thenBranch).leaveScope, p.slots,
        (buildBody (builder (n - 1)) (some fn) thenBranch).final
          ((buildCondition (builder (n - 1)) (some fn) condition).final p.codegen)⟩ ∧
      SameVars p.analysis mid.analysis ∧ mid.analysis.Nested ∧
      GrowsBy (declaredInBody thenBranch) p.codegen mid.codegen ∧
      BodyAgrees (n - 1) fn (σ.leave (declaredInBody thenBranch)) (mid.enter mid.codegen)
        (some stmts) a₂ := by
    intro hscoped
    obtain ⟨mid, hmid, hanalysis, hvars, hgrows⟩ := hcontinue hscoped
    have hslots : mid.slots = p.slots := by rw [hmid]
    have hcodegen : mid.codegen = (buildBody (builder (n - 1)) (some fn) thenBranch).final
        ((buildCondition (builder (n - 1)) (some fn) condition).final p.codegen) := by rw [hmid]
    have hmidWf := wellFormed_leave hp hvars hslots hgrows
    refine ⟨mid, hmid, hvars, hmidWf.nested, hgrows, ?_⟩
    rw [hcodegen]
    exact helse mid hanalysis hcodegen hmidWf (tracks_leave hp htracks hvars hslots hgrows)
  unfold StmtAgrees
  rw [stmtVarUses, ScopedStmt, List.forall_mem_append, List.forall_mem_append]
  have hown := ownUses_agree_iff htracks (.ifStmt condition thenBranch (some stmts))
  constructor
  · rw [and_assoc]
    refine and_congr hown ?_
    rw [hthenIff]
    refine and_congr_right fun hscoped => ?_
    obtain ⟨mid, rfl, -, -, -, helseIff, -⟩ := helse' hscoped
    exact helseIff
  · rintro ⟨-, hscoped, helseScoped⟩
    obtain ⟨mid, rfl, hvars, hnested, hgrows, -, helseLeaves⟩ := helse' hscoped
    obtain ⟨hanalysis, hdeclares, helseGrows⟩ := helseLeaves helseScoped
    have hvars' := hvars.trans (leaveScope_sameVars hnested hdeclares)
    refine continues_leave hp htracks ?_ hvars' rfl ?_
    · show afterStmt p.analysis (.ifStmt condition thenBranch (some stmts)) = a₂.leaveScope
      rw [afterStmt, afterElse]
      exact congrArg Cg.leaveScope hanalysis
    · rw [hfinal]
      exact hgrows.trans helseGrows

/-- A block without statements. -/
theorem bodyAgrees_nil {body : Option (List ASTStmt)} (huses : bodyVarUses n fn p body = [])
    (hscoped : ScopedBody σ body = True) (hnames : declaredInBody body = [])
    (hafter : afterBody p.analysis body = p.analysis)
    (hfinal : (buildBody (builder n) (some fn) body).final p.codegen = p.codegen) :
    BodyAgrees n fn σ p body p.analysis := by
  unfold BodyAgrees
  rw [huses, hscoped, hnames, hafter, hfinal]
  exact ⟨by simp, fun _ => ⟨rfl, SameVars.declares ⟨rfl, rfl⟩, .refl _⟩⟩

/-- A block that begins with a statement. -/
theorem bodyAgrees_cons {stmts : List ASTStmt} {a₁ : Cg}
    (hfinal : (buildStmts (builder n) (some fn) (s :: stmts)).final p.codegen =
      (buildStmts (builder n) (some fn) stmts).final (p.after n fn s).codegen)
    (hs : StmtAgrees n fn σ p s a₁)
    (hstmts : Continues (σ.after s) (declaredIn s) p (p.after n fn s) a₁ →
      BodyAgrees n fn (σ.after s) (p.after n fn s) (some stmts) a) :
    BodyAgrees n fn σ p (some (s :: stmts)) a := by
  obtain ⟨hiff, hcontinues⟩ := hs
  unfold BodyAgrees
  rw [bodyVarUses, stmtsVarUses, ScopedBody, ScopedStmts, List.forall_mem_append, hiff]
  constructor
  · refine and_congr_right fun hscoped => ?_
    exact (hstmts (hcontinues hscoped)).1
  · rintro ⟨hscoped, hrestScoped⟩
    have hfirst := hcontinues hscoped
    obtain ⟨hanalysis, hdeclares, hgrows⟩ := (hstmts hfirst).2 hrestScoped
    rw [hfirst.analysis] at hdeclares
    refine ⟨?_, hfirst.declares.trans hdeclares, ?_⟩
    · rw [afterBody, afterStmts]
      exact hanalysis
    · rw [declaredInBody, declaredInStmts, buildBody, hfinal]
      exact hfirst.grows.trans hgrows

mutual

/-- **The two passes agree on the uses of a statement exactly when the text allows
them**, by induction on the statement. -/
theorem stmt_agrees : ∀ (s : ASTStmt) {n : ℕ} {fn : CgCallee} {σ : Statuses} {p : ScopePair}
    {s' : ASTStmt} {a : Cg} {code : List CodeStmt},
    (analyzeStmt s).run p.analysis = .ok (s', a) →
      ((builder n).stmt (some fn) s').result p.codegen = .ok code →
      p.WellFormed → Tracks σ p → StmtAgrees n fn σ p s' a
  | s, 0, fn, σ, p, s', a, code, h, hbuilt, hp, htracks => by cases hbuilt
  | .varDecl name type typeDesc init isConst, n + 1, fn, σ, p, s', a, code, h, hbuilt, hp,
    htracks => by
      rw [analyzeStmt] at h
      obtain ⟨initType, declared, -, rfl, hdeclare, -, rfl⟩ := analyzeVarDecl_ok h
      exact stmtAgrees_varDecl hp htracks rfl hdeclare hbuilt
  | .varAssign name value op, n + 1, fn, σ, p, s', a, code, h, hbuilt, hp, htracks => by
      obtain ⟨var, -, -, -, rfl, rfl⟩ := analyzeStmt_varAssign_ok h
      exact stmtAgrees_simple hp htracks rfl rfl rfl rfl rfl rfl ⟨rfl, rfl⟩
        (growsBy_varAssign htracks)
  | .indexAssign target index value op, n + 1, fn, σ, p, s', a, code, h, hbuilt, hp,
    htracks => by
      obtain ⟨-, -, -, rfl, rfl⟩ := analyzeStmt_indexAssign_ok h
      exact stmtAgrees_simple hp htracks rfl rfl rfl rfl rfl rfl ⟨rfl, rfl⟩ fun _ =>
        growsBy_of_keeps fun c =>
          keeps_buildIndexAssign (builder_keepsScope n c) (some fn) target index value op
  | .memberAssign target member value op, n + 1, fn, σ, p, s', a, code, h, hbuilt, hp,
    htracks => by
      obtain ⟨-, -, rfl, rfl⟩ := analyzeStmt_memberAssign_ok h
      exact stmtAgrees_simple hp htracks rfl rfl rfl rfl rfl rfl ⟨rfl, rfl⟩ fun _ =>
        growsBy_of_keeps fun c =>
          keeps_buildMemberAssign (builder_keepsScope n c) (some fn) target member value op
  | .print e, n + 1, fn, σ, p, s', a, code, h, hbuilt, hp, htracks => by
      obtain ⟨-, rfl, rfl⟩ := analyzeStmt_print_ok h
      exact stmtAgrees_simple hp htracks rfl rfl rfl rfl rfl rfl ⟨rfl, rfl⟩ fun _ =>
        growsBy_of_keeps fun c =>
          keeps_bind ((builder_keepsScope n c).expr (some fn) e) fun _ => keeps_pure _
  | .expr e, n + 1, fn, σ, p, s', a, code, h, hbuilt, hp, htracks => by
      obtain ⟨-, rfl, rfl⟩ := analyzeStmt_expr_ok h
      exact stmtAgrees_simple hp htracks rfl rfl rfl rfl rfl rfl ⟨rfl, rfl⟩ fun _ =>
        growsBy_of_keeps fun c =>
          keeps_bind ((builder_keepsScope n c).expr (some fn) e) fun _ => keeps_pure _
  | .return e tag, n + 1, fn, σ, p, s', a, code, h, hbuilt, hp, htracks => by
      obtain ⟨t, -, rfl, rfl⟩ := analyzeStmt_return_ok h
      exact stmtAgrees_simple hp htracks rfl rfl rfl rfl rfl rfl ⟨rfl, rfl⟩ fun _ =>
        growsBy_of_keeps fun c => keeps_buildReturn (builder_keepsScope n c) (some fn) e
  | .ifStmt condition thenBranch elseBranch, n + 1, fn, σ, p, s', a, code, h, hbuilt, hp,
    htracks => by
      have hsame : SameScope p.codegen
          ((buildCondition (builder n) (some fn) condition).final p.codegen) :=
        sameScope_of_keeps (keeps_buildCondition (builder_keepsScope n _) (some fn) condition)
      obtain ⟨-, thenBranch', a₁, hthen, helse⟩ := analyzeStmt_ifStmt_ok h
      rcases helse with ⟨rfl, rfl, rfl⟩ | ⟨stmts, stmts', a₂, rfl, helse, rfl, rfl⟩
      · obtain ⟨⟨x, hx⟩, -, hfinal⟩ := buildIf_ok hbuilt
        have hagrees := body_agrees thenBranch hthen hx (wellFormed_enter hp hsame)
          (tracks_enter hp htracks hsame)
        have hend : SameScope _ ((buildIf (builder n) (some fn) condition thenBranch' none).final
            p.codegen) := ⟨congrArg Cg.scope hfinal, congrArg Cg.nextSlot hfinal⟩
        refine stmtAgrees_block hp htracks ?_ ?_ rfl ?_ rfl ?_ (declares_enter hagrees) hsame
          hend rfl hagrees
        · rw [stmtVarUses, bodyVarUses, List.append_nil]
          rfl
        · rw [ScopedStmt, ScopedBody, and_true]
        · rw [declaredIn, declaredInBody, List.append_nil]
        · rw [afterStmt, afterElse]
          rfl
      · obtain ⟨⟨x, hx⟩, ⟨y, hy⟩, hfinal⟩ := buildIf_ok hbuilt
        have hagrees := body_agrees thenBranch hthen hx (wellFormed_enter hp hsame)
          (tracks_enter hp htracks hsame)
        refine stmtAgrees_ifElse hp htracks rfl rfl rfl hfinal hagrees ?_
        intro mid hmid hcodegen hwf hmidTracks
        rw [← hmid] at helse
        rw [← hcodegen]
        have hsame' : SameScope mid.codegen mid.codegen := ⟨rfl, rfl⟩
        have hy' : (buildStmts (builder n) (some fn) stmts').result mid.codegen = .ok y := by
          rw [hcodegen]
          exact hy
        exact stmts_agree stmts helse hy' (wellFormed_enter hwf hsame')
          (tracks_enter hwf hmidTracks hsame')
  | .whileStmt condition body, n + 1, fn, σ, p, s', a, code, h, hbuilt, hp, htracks => by
      obtain ⟨-, body', a₁, hbody, rfl, rfl⟩ := analyzeStmt_whileStmt_ok h
      obtain ⟨r, hloop, -, hfinal⟩ := bind_ok hbuilt
      obtain ⟨⟨x, hx⟩, hend⟩ := buildLoop_ok hloop
      have hsame : SameScope p.codegen
          (loopStart (buildCondition (builder n) (some fn) condition) p.codegen) :=
        sameScope_loopStart fun c => sameScope_of_keeps
          (keeps_buildCondition (builder_keepsScope n c) (some fn) condition)
      have hagrees := body_agrees body hbody hx (wellFormed_enter hp hsame)
        (tracks_enter hp htracks hsame)
      refine stmtAgrees_block hp htracks rfl Iff.rfl rfl rfl rfl ?_
        (declares_enter hagrees) hsame ?_ rfl hagrees
      · rw [afterStmt]
        rfl
      · exact ⟨(congrArg Cg.scope hfinal).trans hend.1, (congrArg Cg.nextSlot hfinal).trans hend.2⟩
  | .forStmt name range body, n + 1, fn, σ, p, s', a, code, h, hbuilt, hp, htracks => by
      obtain ⟨-, a₁, body', a₂, hdeclare, hbody, rfl, rfl⟩ := analyzeStmt_forStmt_ok h
      obtain ⟨r, hloop, hfinal⟩ := buildFor_ok hbuilt
      obtain ⟨⟨x, hx⟩, hend⟩ := buildLoop_ok hloop
      have hsame : SameScope p.codegen (loopStart (pure () : Lower Unit) p.codegen) := ⟨rfl, rfl⟩
      have hend' : SameScope _ ((buildFor (builder n) (some fn) name range body').final
          p.codegen) := hfinal ▸ hend
      have hstart := declared_of_ok hdeclare
      refine stmtAgrees_loop hp htracks hsame hdeclare rfl Iff.rfl rfl rfl rfl ?_ hend' rfl
        (body_agrees body ?_ hx)
      · rw [afterStmt]
      · rw [← hstart] at hbody
        exact hbody
  | .forIn name iterable body, n + 1, fn, σ, p, s', a, code, h, hbuilt, hp, htracks => by
      obtain ⟨-, element, a₁, body', a₂, helement, hdeclare, hbody, rfl, rfl⟩ :=
        analyzeStmt_forIn_ok h
      obtain ⟨r, hloop, -, hfinal⟩ := bind_ok hbuilt
      obtain ⟨⟨x, hx⟩, hend⟩ := buildLoop_ok hloop
      have hsame : SameScope p.codegen
          (loopStart (buildIterable (builder n) (some fn) iterable) p.codegen) :=
        sameScope_loopStart fun c => sameScope_of_keeps
          (keeps_buildIterable (builder_keepsScope n c) (some fn) iterable)
      have hend' : SameScope _ ((buildForIn (builder n) (some fn) name iterable body').final
          p.codegen) :=
        ⟨(congrArg Cg.scope hfinal).trans hend.1, (congrArg Cg.nextSlot hfinal).trans hend.2⟩
      rw [← helement] at hdeclare
      have hstart := declared_of_ok hdeclare
      refine stmtAgrees_loop hp htracks hsame hdeclare rfl Iff.rfl rfl rfl rfl ?_ hend' rfl
        (body_agrees body ?_ hx)
      · rw [afterStmt]
      · rw [← hstart] at hbody
        exact hbody
  | .funcDecl decl, n + 1, fn, σ, p, s', a, code, h, _, _, _ =>
      absurd h analyzeStmt_funcDecl_ne_ok
  | .structDecl name fields, n + 1, fn, σ, p, s', a, code, h, hbuilt, hp, htracks => by
      obtain ⟨hdeclare, rfl⟩ := analyzeStmt_structDecl_ok h
      refine stmtAgrees_simple hp htracks rfl rfl rfl rfl rfl ?_ (declareStruct_sameVars hdeclare)
        fun _ => .refl _
      rw [afterStmt, hdeclare]
      rfl
  | .classDecl name parentName fields methods constructor, n + 1, fn, σ, p, s', a, code, h,
    hbuilt, hp, htracks => by
      obtain ⟨hdeclare, rfl⟩ := analyzeStmt_classDecl_ok h
      refine stmtAgrees_simple hp htracks rfl rfl rfl rfl rfl ?_ (declareClass_sameVars hdeclare)
        fun _ => ?_
      · rw [afterStmt, hdeclare]
        rfl
      · have hreaches := steps_buildClassDecl (builder_steps p.codegen n) name p.codegen .refl
        exact .of_same (buildClassDecl_scope hbuilt) hreaches.nextSlot_le
  | .break, n + 1, fn, σ, p, s', a, code, h, hbuilt, hp, htracks => by
      obtain ⟨rfl, rfl⟩ := run_pure_eq_ok.mp h
      exact stmtAgrees_simple hp htracks rfl rfl rfl rfl rfl rfl ⟨rfl, rfl⟩ fun _ =>
        growsBy_of_keeps fun c => keeps_get_any fun cg => by
          split
          · exact keeps_pure _
          · exact keeps_throw _
  | .continue, n + 1, fn, σ, p, s', a, code, h, hbuilt, hp, htracks => by
      obtain ⟨rfl, rfl⟩ := run_pure_eq_ok.mp h
      exact stmtAgrees_simple hp htracks rfl rfl rfl rfl rfl rfl ⟨rfl, rfl⟩ fun _ =>
        growsBy_of_keeps fun c => keeps_get_any fun cg => by
          split
          · exact keeps_pure _
          · exact keeps_throw _
  | .importStmt _ _ _ _, n + 1, fn, σ, p, s', a, code, h, hbuilt, hp, htracks
  | .exportStmt _ _, n + 1, fn, σ, p, s', a, code, h, hbuilt, hp, htracks => by
      obtain ⟨rfl, -⟩ := run_pure_eq_ok.mp h
      cases hbuilt

theorem body_agrees : ∀ (body : Option (List ASTStmt)) {n : ℕ} {fn : CgCallee} {σ : Statuses}
    {p : ScopePair} {body' : Option (List ASTStmt)} {a : Cg} {code : List CodeStmt},
    (analyzeBody body).run p.analysis = .ok (body', a) →
      (buildBody (builder n) (some fn) body').result p.codegen = .ok code →
      p.WellFormed → Tracks σ p → BodyAgrees n fn σ p body' a
  | none, n, fn, σ, p, body', a, code, h, hbuilt, hp, htracks => by
      rw [analyzeBody] at h
      obtain ⟨rfl, rfl⟩ := run_pure_eq_ok.mp h
      exact bodyAgrees_nil rfl rfl rfl rfl rfl
  | some stmts, n, fn, σ, p, body', a, code, h, hbuilt, hp, htracks => by
      obtain ⟨ts, hstmts, rfl⟩ := analyzeBody_some_ok h
      exact stmts_agree stmts hstmts hbuilt hp htracks

theorem stmts_agree : ∀ (stmts : List ASTStmt) {n : ℕ} {fn : CgCallee} {σ : Statuses}
    {p : ScopePair} {stmts' : List ASTStmt} {a : Cg} {code : List CodeStmt},
    (analyzeStmts stmts).run p.analysis = .ok (stmts', a) →
      (buildStmts (builder n) (some fn) stmts').result p.codegen = .ok code →
      p.WellFormed → Tracks σ p → BodyAgrees n fn σ p (some stmts') a
  | [], n, fn, σ, p, stmts', a, code, h, hbuilt, hp, htracks => by
      rw [analyzeStmts] at h
      obtain ⟨rfl, rfl⟩ := run_pure_eq_ok.mp h
      exact bodyAgrees_nil rfl rfl rfl rfl rfl
  | s :: stmts, n, fn, σ, p, stmts', a, code, h, hbuilt, hp, htracks => by
      obtain ⟨t, a₁, ts, hs, hstmts, rfl⟩ := analyzeStmts_cons_ok h
      obtain ⟨first, rest, hfirst, hrest, -, hfinal⟩ := buildStmts_cons_ok hbuilt
      refine bodyAgrees_cons hfinal (stmt_agrees s hs hfirst hp htracks) fun hcontinues => ?_
      rw [← hcontinues.analysis] at hstmts
      exact stmts_agree stmts hstmts hrest hcontinues.wellFormed hcontinues.tracks

end

end Statements

/-! ### Functions -/

section Functions

variable {p : ScopePair} {σ : Statuses} {a a' c : Cg} {params : List ASTParam}

/-- The slots of what the generator has in its scope, in front of those of what is
declared around it. -/
def scopeSlots (c : Cg) (outer : List (Option StackSlot)) : List (Option StackSlot) :=
  c.scope.map (fun v => some v.alloca) ++ outer

/-- The statuses after the parameters have been declared one by one. -/
def declareAll (σ : Statuses) (params : List ASTParam) : Statuses :=
  params.foldl (fun σ param => σ.declare param.name) σ

theorem declareAll_noSlot (params : List ASTParam) :
    declareAll (fun _ => .noSlot) params = paramStatuses params := by
  have hall : ∀ σ, ∀ name, declareAll σ params name =
      if name ∈ params.map ASTParam.name then .own else σ name := by
    induction params with
    | nil => exact fun σ name => rfl
    | cons param params ih =>
        intro σ name
        have hrest := ih (σ.declare param.name) name
        rw [List.map_cons]
        by_cases hmem : name ∈ params.map ASTParam.name
        · rw [if_pos hmem] at hrest
          rw [if_pos (List.mem_cons_of_mem _ hmem)]
          exact hrest
        · rw [if_neg hmem] at hrest
          refine hrest.trans ?_
          simp [Statuses.declare, hmem]
  funext name
  exact hall _ name

theorem setupParams_cons_final (param : ASTParam) :
    AddsVar param.name c
        ((do let slot ← newSlot
             scopeAddVar { CgVar.new param.name slot with
               typeDesc := param.typeDesc
               type := (param.typeDesc.map TypeDescriptor.baseType).getD .typeNil } :
          Lower Unit).final c) ∧
      (setupParams (param :: params)).final c =
        (setupParams params).final
          ((do let slot ← newSlot
               scopeAddVar { CgVar.new param.name slot with
                 typeDesc := param.typeDesc
                 type := (param.typeDesc.map TypeDescriptor.baseType).getD .typeNil } :
            Lower Unit).final c) :=
  ⟨⟨_, rfl, rfl, rfl, rfl⟩, final_bind_pure _ _ _⟩

/-- The parameters of a function are declared by both passes. -/
theorem setupParams_tracks {outer : List (Option StackSlot)} {u : Unit}
    (h : (declareParams params).run p.analysis = .ok (u, a)) (hp : p.WellFormed)
    (htracks : Tracks σ p) (hslots : p.slots = scopeSlots p.codegen outer) :
    let c := (setupParams params).final p.codegen
    (⟨a, scopeSlots c outer, c⟩ : ScopePair).WellFormed ∧
      Tracks (declareAll σ params) ⟨a, scopeSlots c outer, c⟩ := by
  induction params generalizing p σ with
  | nil =>
      obtain ⟨-, rfl⟩ := run_pure_eq_ok.mp h
      obtain ⟨analysis, slots, codegen⟩ := p
      obtain rfl : slots = scopeSlots codegen outer := hslots
      exact ⟨hp, htracks⟩
  | cons param params ih =>
      obtain ⟨a₁, hdeclare, hparams⟩ := run_updates_bind_eq_ok.mp h
      obtain ⟨hadds, hfinal⟩ := @setupParams_cons_final p.codegen params param
      have hvar := declareVar_declaresVar hdeclare
      rw [hfinal]
      let c₁ := (do let slot ← newSlot
                    scopeAddVar { CgVar.new param.name slot with
                      typeDesc := param.typeDesc
                      type := (param.typeDesc.map TypeDescriptor.baseType).getD .typeNil } :
        Lower Unit).final p.codegen
      let q : ScopePair := ⟨a₁, ScopePair.newestSlot c₁ :: p.slots, c₁⟩
      have hq : q.slots = scopeSlots q.codegen outer := by
        show ScopePair.newestSlot c₁ :: p.slots = scopeSlots c₁ outer
        rw [hslots]
        rfl
      exact @ih q (σ.declare param.name) hparams (wellFormed_declare hp hvar hadds rfl)
        (tracks_declare hp htracks hvar hadds rfl) hq

/-- At the start of a function the parameters have their own slots. -/
theorem functionStart_tracks {decl : FuncDecl} {u : Unit} (ha : a.Nested)
    (h : (declareParams decl.params).run a.enterScope = .ok (u, a')) :
    (functionStart decl a c).WellFormed ∧
      Tracks (paramStatuses decl.params) (functionStart decl a c) ∧
      (functionStart decl a c).analysis = a' := by
  let p : ScopePair :=
    ⟨a.enterScope, a.globalVars.map fun _ => none, { c with scope := [] }⟩
  have hp : p.WellFormed := by
    refine ⟨List.length_map _, enterScope_nested ha, fun slot hslot => ?_⟩
    obtain ⟨v, -, heq⟩ := List.mem_map.mp hslot
    cases heq
  have htracks : Tracks (fun _ => .noSlot) p := by
    intro name
    refine ⟨?_, rfl⟩
    cases hhome : p.home name with
    | none => rfl
    | some slot =>
        unfold ScopePair.home at hhome
        obtain ⟨v, hv, hslot⟩ := Option.bind_eq_some_iff.mp hhome
        have hmem := (List.of_mem_zip (List.mem_of_find?_eq_some hv)).2
        obtain ⟨w, -, heq⟩ := List.mem_map.mp hmem
        rw [← heq] at hslot
        cases hslot
  have hstart : functionStart decl a c =
      ⟨a', scopeSlots ((setupParams decl.params).final p.codegen)
        (a.globalVars.map fun _ => none), (setupParams decl.params).final p.codegen⟩ := by
    unfold functionStart
    rw [declareParams_ok h]
    rfl
  obtain ⟨hwf, hparams⟩ := @setupParams_tracks p _ a' decl.params _ u h hp htracks rfl
  rw [declareAll_noSlot] at hparams
  rw [hstart]
  exact ⟨hwf, hparams, rfl⟩

theorem analyzeStmts_of_function {decl : FuncDecl} {stmts stmts' : List ASTStmt}
    (h : (analyzeFunctionStmts decl stmts).run a = .ok (stmts', a')) :
    (analyzeStmts stmts).run a = .ok (stmts', a') := by
  induction stmts generalizing a stmts' with
  | nil => exact h
  | cons s stmts ih =>
      rw [analyzeFunctionStmts] at h
      obtain ⟨t, a₁, hs, h⟩ := run_bind_eq_ok.mp h
      obtain ⟨u, -, h⟩ := run_reads_bind_eq_ok.mp h
      obtain ⟨ts, a₂, hstmts, hpure⟩ := run_bind_eq_ok.mp h
      obtain ⟨rfl, rfl⟩ := run_pure_eq_ok.mp hpure
      rw [analyzeStmts]
      exact run_bind_eq_ok.mpr ⟨t, a₁, hs, run_bind_eq_ok.mpr
        ⟨ts, a₂, ih hstmts, run_pure_eq_ok.mpr ⟨rfl, rfl⟩⟩⟩

theorem generateFunctionBody_ok {n : ℕ} {decl : FuncDecl} {fn : LLVMFunction}
    {stmts : List ASTStmt} (hbody : decl.body = some stmts)
    (h : (generateFunctionBody (builder n) (functionEntry decl fn)).result c = .ok ()) :
    ∃ code, (buildStmts (builder n) (some (bodyCallee decl)) stmts).result
      (functionStart decl a c).codegen = .ok code := by
  unfold generateFunctionBody at h
  have hentry : (functionEntry decl fn).body = some stmts := hbody
  rw [hentry] at h
  obtain ⟨f, -, h, -⟩ := bind_ok h
  obtain ⟨u, -, h, -⟩ := bind_ok h
  obtain ⟨params, -, h, -⟩ := bind_ok h
  obtain ⟨code, hcode, -, -⟩ := bind_ok h
  exact ⟨code, hcode⟩

/-- **The two passes agree on a function exactly when its body uses no captured
name.** -/
theorem scopes_agree_iff {decl decl' : FuncDecl} {n : ℕ} {fn : LLVMFunction} (ha : a.Nested)
    (haccepted : (analyzeFunction decl).run a = .ok (decl', a'))
    (hbuilt : (generateFunctionBody (builder n) (functionEntry decl' fn)).result c = .ok ()) :
    (∀ u ∈ functionUses n decl' a c, u.Agrees) ↔ ScopedFunction decl' := by
  unfold analyzeFunction at haccepted
  rw [run_modify_bind_eq_ok] at haccepted
  obtain ⟨u, a₁, hparams, h⟩ := run_bind_eq_ok.mp haccepted
  obtain ⟨stmts', a₂, hstmts, h⟩ := run_bind_eq_ok.mp h
  obtain ⟨u, -, h⟩ := run_reads_bind_eq_ok.mp h
  rw [run_modify_bind_eq_ok] at h
  obtain ⟨hdecl, -⟩ := run_pure_eq_ok.mp h
  have hparams' : decl'.params = decl.params := by rw [← hdecl]
  rw [← hparams'] at hparams
  obtain ⟨hwf, htracks, hanalysis⟩ := @functionStart_tracks a a₁ c decl' u ha hparams
  unfold functionUses ScopedFunction
  cases hbody : decl.body with
  | none =>
      have hbody' : decl'.body = none := by rw [← hdecl, hbody]; rfl
      rw [hbody', bodyVarUses, ScopedBody]
      simp
  | some stmts =>
      have hbody' : decl'.body = some stmts' := by rw [← hdecl, hbody]; rfl
      obtain ⟨code, hcode⟩ := @generateFunctionBody_ok a c n decl' fn stmts' hbody' hbuilt
      rw [hbody, Option.getD_some] at hstmts
      have hrun := analyzeStmts_of_function hstmts
      rw [← hanalysis] at hrun
      rw [hbody']
      exact (stmts_agree stmts hrun hcode hwf htracks).1

end Functions

/-- `let x: Int = 1`, then a block with `let x: Int = 2`, and then
`return x`. -/
def redeclaredInBlock : FuncDecl :=
  ⟨"f".toList, [], .typeInt, some .int, some [
    .varDecl "x".toList .typeInt (some .int) (.int 1) false,
    .ifStmt (.bool true) (some [.varDecl "x".toList .typeInt (some .int) (.int 2) false]) none,
    .return (.var "x".toList) none]⟩

/-- The function is accepted and built, and the `x` that it returns is the one of
the block. -/
theorem redeclaredInBlock_disagrees :
    ∃ decl' a' n fn, (analyzeFunction redeclaredInBlock).run .init = .ok (decl', a') ∧
      (generateFunctionBody (builder n) (functionEntry decl' fn)).result a' = .ok () ∧
      ¬ ∀ u ∈ functionUses n decl' .init a', u.Agrees := by
  refine ⟨_, _, 4, ⟨"f".toList, 0, 1⟩, rfl, rfl, fun hall => ?_⟩
  have hagrees : VarUse.Agrees _ := hall _ (List.Mem.head _)
  exact absurd hagrees (by decide +kernel)

/-- `let x: Int = 1`, then a block with `let y: Int = x`, and then `return x`. -/
def declaredInBlock : FuncDecl :=
  ⟨"f".toList, [], .typeInt, some .int, some [
    .varDecl "x".toList .typeInt (some .int) (.int 1) false,
    .ifStmt (.bool true) (some [.varDecl "y".toList .typeInt (some .int) (.var "x".toList) false])
      none,
    .return (.var "x".toList) none]⟩

theorem declaredInBlock_agrees_iff :
    ∃ decl' a' n fn, (analyzeFunction declaredInBlock).run .init = .ok (decl', a') ∧
      (generateFunctionBody (builder n) (functionEntry decl' fn)).result a' = .ok () ∧
      ((∀ u ∈ functionUses n decl' .init a', u.Agrees) ↔ ScopedFunction decl') := by
  refine ⟨_, _, 4, ⟨"f".toList, 0, 1⟩, rfl, rfl, ?_⟩
  exact @scopes_agree_iff .init _ _ declaredInBlock _ 4 ⟨"f".toList, 0, 1⟩ (by simp [Cg.Nested, Cg.init])
    rfl rfl

end BreadLang
