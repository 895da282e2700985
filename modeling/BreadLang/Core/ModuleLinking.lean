import BreadLang.Core.ModuleImports

/-!
# The symbols of the imports in a run of the pass

From one call of `process_import_statement` to the run of the pass on a program: the
symbols stay in order, and an error of an import is only set where a call is recorded to
have failed.
-/

namespace BreadLang

open Stateful ModuleM Relation

variable {env : ModuleEnv} {casts : NumericCasts} {α β : Type}

/-! ### Loading and compiling -/

/-- A computation that starts by loading a module that is found. -/
theorem keepsSymbols_moduleLoad_bind {path : FilePath} {dir : Option FilePath} {q : FilePath}
    (hq : env.moduleResolvePath path dir = .ok q) {f : FilePath → ModuleM β}
    (hf : KeepsSymbols env (f q)) : KeepsSymbols env (moduleLoad env path dir >>= f) := by
  unfold moduleLoad
  rw [hq]
  have hload : KeepsSymbols env (modify (·.load q path) : ModuleM Unit) :=
    fun _ => triple_modify fun _ hs => hs.load q path
  show KeepsSymbols env ((modify (·.load q path) : ModuleM Unit) >>= fun _ => f q)
  exact keepsSymbols_bind hload fun _ => hf

/-- `module_compile` of a file that can be parsed. -/
theorem keepsSymbols_moduleCompile {p : FilePath} (hp : (env.file p).join.isSome = true) :
    KeepsSymbols env (moduleCompile env p) := by
  obtain ⟨stmts, hfile⟩ := Option.isSome_iff_exists.mp hp
  refine keepsSymbols_module_bind fun s₀ s m hs hm => ?_
  split
  · exact hs
  split
  · exact ⟨hs, fun e he _ => .inl ⟨m.name, by cases he; rfl⟩⟩
  · have hmark := run_updateModule hm fun m => { m with isLoading := true }
    have hmarked : ModuleState.Kept env s₀ (s.setModule p { m with isLoading := true }) :=
      hs.setModule hm (fun _ _ he => he) ((hs.linked.exports p m hm).of_view rfl)
    rw [result_bind, final_bind, hmark.1, hmark.2]
    unfold compileFile
    rw [hfile]
    dsimp only
    obtain ⟨heap, list, nodes, hresult, hfinal, -, -, -⟩ :=
      run_buildStmtList (.module p) stmts (s.setModule p { m with isLoading := true })
    rw [result_bind, final_bind, hresult, hfinal]
    dsimp only
    have hcompiled : KeepsSymbols env (updateModule p fun m =>
        { m with ast := some list, isCompiled := true, isLoading := false }) :=
      keepsSymbols_updateModule fun _ => rfl
    exact hcompiled s₀ _ (hmarked.of_eq rfl rfl rfl)

/-! ### Registration -/

/-- The table grows by a symbol, or stays. -/
theorem holds_register {s₀ s : ModuleState} (hs : ModuleState.Kept env s₀ s)
    (scope name : Ident) (ptr : SymbolPtr) :
    Holds (fun _ => ModuleState.Kept env s₀) (fun _ => ModuleState.Kept env s₀)
      ((moduleRegisterQualifiedSymbol scope name ptr).result s)
      ((moduleRegisterQualifiedSymbol scope name ptr).final s) := by
  unfold moduleRegisterQualifiedSymbol
  split
  · exact hs
  split
  · exact hs
  rw [result_get_bind, final_get_bind]
  split
  · exact hs
  · rename_i hnew
    exact hs.register ptr (lookup_of_any_eq_false (by simpa using hnew))

theorem triple_importSymbols {s₀ : ModuleState} (p : FilePath) (moduleAlias : Option Ident)
    (isSelective : Bool) (symbols : List (Ident × Option Ident)) :
    Triple (ModuleState.Kept env s₀) (importSymbols p moduleAlias isSelective symbols)
      (fun _ => ModuleState.Kept env s₀) (fun _ => ModuleState.Kept env s₀) := by
  have hforM : ∀ {γ : Type} (f : γ → ModuleM PUnit) (as : List γ),
      (∀ a, Triple (ModuleState.Kept env s₀) (f a) (fun _ => ModuleState.Kept env s₀)
        (fun _ => ModuleState.Kept env s₀)) →
      Triple (ModuleState.Kept env s₀) (as.forM f) (fun _ => ModuleState.Kept env s₀)
        (fun _ => ModuleState.Kept env s₀) := by
    intro γ f as hf
    induction as with
    | nil => exact triple_pure fun _ hs => hs
    | cons a as ih => exact triple_bind (hf a) fun _ => ih
  have hmodule : Triple (ModuleState.Kept env s₀) (ModuleM.module p)
      (fun _ => ModuleState.Kept env s₀) (fun _ => ModuleState.Kept env s₀) :=
    triple_conseq (keepsSymbols_module p s₀) (fun _ h => h) (fun _ _ h => h) fun _ _ h => h.1
  cases isSelective with
  | true =>
      refine hforM _ symbols fun symbol => triple_bind hmodule fun m => ?_
      cases moduleFindExport m.exports symbol.1 with
      | none => exact triple_throw fun _ hs => hs
      | some exported => exact fun s hs => holds_register hs _ _ _
  | false =>
      refine triple_bind hmodule fun m => hforM _ m.exports fun exported => ?_
      exact fun s hs => holds_register hs _ _ _

theorem isEmpty_of_valid {name : Ident} (h : moduleIsValidIdentifier name = true) :
    name.isEmpty = false := by
  cases name with
  | nil => cases h
  | cons c name => rfl

/-- A valid name that is new is registered. -/
theorem run_register {scope name : Ident} (ptr : SymbolPtr) {s : ModuleState}
    (hscope : moduleIsValidIdentifier scope = true) (hname : moduleIsValidIdentifier name = true)
    (hnew : moduleLookupSymbol s.qualified (qualify scope name) = none) :
    (moduleRegisterQualifiedSymbol scope name ptr).result s = .ok () ∧
      (moduleRegisterQualifiedSymbol scope name ptr).final s =
        { s with qualified := ⟨qualify scope name, ptr⟩ :: s.qualified } := by
  unfold moduleRegisterQualifiedSymbol
  rw [isEmpty_of_valid hscope, isEmpty_of_valid hname, hscope, hname]
  simp only [Bool.or_self, Bool.false_eq_true, if_false, Bool.not_true, result_get_bind,
    final_get_bind, any_eq_false_of_lookup hnew]
  exact ⟨rfl, rfl⟩

/-- **Distinct valid names that are all new are registered.**  `f` is the loop of an import
over its symbols; what it does with a symbol depends on the modules, which stay. -/
theorem run_registers {scope : Ident} (hscope : moduleIsValidIdentifier scope = true)
    {f : α → ModuleM PUnit} (entry : α → Ident × SymbolPtr) {as : List α} :
    ∀ {s : ModuleState},
      (∀ a ∈ as, ∀ t : ModuleState, t.modules = s.modules →
        (f a).result t =
            (moduleRegisterQualifiedSymbol scope (entry a).1 (entry a).2).result t ∧
          (f a).final t =
            (moduleRegisterQualifiedSymbol scope (entry a).1 (entry a).2).final t) →
      (∀ a ∈ as, moduleIsValidIdentifier (entry a).1 = true) →
      (∀ a ∈ as, moduleLookupSymbol s.qualified (qualify scope (entry a).1) = none) →
      (as.map fun a => (entry a).1).Nodup →
      (as.forM f).result s = .ok () ∧
        ((as.forM f).final s).modules = s.modules ∧
        (∀ name ptr, moduleLookupSymbol s.qualified name = some ptr →
          moduleLookupSymbol ((as.forM f).final s).qualified name = some ptr) ∧
        ∀ a ∈ as, moduleLookupSymbol ((as.forM f).final s).qualified (qualify scope (entry a).1) =
          some (entry a).2 := by
  induction as with
  | nil => exact fun _ _ _ _ => ⟨rfl, rfl, fun _ _ h => h, fun _ ha => absurd ha List.not_mem_nil⟩
  | cons a as ih =>
      intro s hf hvalid hnew hnodup
      rw [List.map_cons, List.nodup_cons] at hnodup
      have hrun := run_register (entry a).2 hscope (hvalid a List.mem_cons_self)
        (hnew a List.mem_cons_self)
      obtain ⟨hresult, hfinal⟩ := hf a List.mem_cons_self s rfl
      rw [hrun.1] at hresult
      rw [hrun.2] at hfinal
      have hnew' : ∀ b ∈ as, moduleLookupSymbol (⟨qualify scope (entry a).1, (entry a).2⟩ ::
          s.qualified) (qualify scope (entry b).1) = none := by
        intro b hb
        rw [lookup_cons, if_neg]
        · exact hnew b (List.mem_cons_of_mem _ hb)
        · intro heq
          rw [qualify_injective scope heq] at hnodup
          exact hnodup.1 (List.mem_map_of_mem hb)
      obtain ⟨hresult', hmodules, hgrows, hlookup⟩ :=
        ih (s := { s with qualified := ⟨qualify scope (entry a).1, (entry a).2⟩ :: s.qualified })
          (fun b hb => hf b (List.mem_cons_of_mem _ hb))
          (fun b hb => hvalid b (List.mem_cons_of_mem _ hb)) hnew' hnodup.2
      have hbind : (List.forM (a :: as) f).result s = (as.forM f).result ((f a).final s) ∧
          (List.forM (a :: as) f).final s = (as.forM f).final ((f a).final s) := by
        show (f a >>= fun _ => as.forM f).result s = _ ∧ (f a >>= fun _ => as.forM f).final s = _
        rw [result_bind, final_bind, hresult]
        exact ⟨rfl, rfl⟩
      rw [hbind.1, hbind.2, hfinal]
      refine ⟨hresult', hmodules, fun name ptr h => hgrows name ptr ?_, fun b hb => ?_⟩
      · show moduleLookupSymbol (_ :: s.qualified) name = some ptr
        rw [lookup_cons, if_neg]
        · exact h
        · rintro rfl
          rw [hnew a List.mem_cons_self] at h
          cases h
      · rcases List.mem_cons.mp hb with rfl | hb
        · refine hgrows _ _ ?_
          show moduleLookupSymbol (_ :: s.qualified) _ = _
          rw [lookup_cons, if_pos rfl]
        · exact hlookup b hb

/-! ### An import -/

/-- The names of an import are valid, and its module exports what it selects. -/
structure ImportCall.WellFormed (env : ModuleEnv) (call : ImportCall) : Prop where
  validScope : moduleIsValidIdentifier call.scope = true
  validNames : ∀ x ∈ call.imported env, moduleIsValidIdentifier x.2 = true
  exported : ∀ x ∈ call.imported env, x.1 ∈ env.exportedNames call.module

section Call

variable {s : ModuleState} {call : ImportCall} {m : Module}

/-- **A selective import that is ready.** -/
theorem run_importSymbols_selective (hs : s.Linked env) (hm : s.modules call.module = some m)
    (hpre : call.isPreprocessed = m.isPreprocessed) (hqualified : call.qualified = s.qualified)
    (hselective : call.isSelective = true) (hwf : call.WellFormed env) (hready : call.Ready env) :
    (importSymbols call.module call.moduleAlias call.isSelective call.symbols).result s = .ok () ∧
      call.Found env
        ((importSymbols call.module call.moduleAlias call.isSelective call.symbols).final s) := by
  have hgood := hs.exports _ m hm
  have himported : call.imported env =
      call.symbols.map fun symbol => (symbol.1, symbol.2.getD symbol.1) := if_pos hselective
  have hscope : call.scope = m.name := by rw [ImportCall.scope, if_pos hselective, hgood.name]
  have hmem : ∀ symbol ∈ call.symbols, (symbol.1, symbol.2.getD symbol.1) ∈ call.imported env :=
    fun symbol hsymbol => himported ▸ List.mem_map_of_mem hsymbol
  have hfind : ∀ symbol ∈ call.symbols, ∃ e, moduleFindExport m.exports symbol.1 = some e :=
    fun symbol hsymbol => Option.isSome_iff_exists.mp
      (hgood.complete (hpre ▸ hready.preprocessed) _ (hwf.exported _ (hmem symbol hsymbol)))
  let entry := fun symbol : Ident × Option Ident =>
    (symbol.2.getD symbol.1,
      (moduleFindExport m.exports symbol.1).elim (.variable []) ModuleSymbol.ptr)
  obtain ⟨hresult, hmodules, -, hlookup⟩ := run_registers hwf.validScope
    (f := importSymbol call.module) entry (s := s)
    (fun symbol hsymbol t ht => by
      obtain ⟨e, he⟩ := hfind symbol hsymbol
      have hrun := run_module (s := t) (ht ▸ hm)
      unfold importSymbol
      rw [result_bind, final_bind, hrun.1, hrun.2]
      simp only [entry, he, hscope]
      exact ⟨rfl, rfl⟩)
    (fun symbol hsymbol => hwf.validNames _ (hmem symbol hsymbol))
    (fun symbol hsymbol => hqualified ▸ hready.unregistered _ (hmem symbol hsymbol))
    (hready.distinct hselective)
  unfold importSymbols
  rw [if_pos hselective]
  refine ⟨hresult, m, by rw [hmodules, hm], fun x hx => ?_⟩
  rw [himported] at hx
  obtain ⟨symbol, hsymbol, rfl⟩ := List.mem_map.mp hx
  obtain ⟨e, he⟩ := hfind symbol hsymbol
  refine ⟨e, he, ?_⟩
  have h := hlookup symbol hsymbol
  simp only [entry, he] at h
  exact h

/-- **An import of a whole module that is ready.** -/
theorem run_importSymbols_whole (hs : s.Linked env) (hm : s.modules call.module = some m)
    (hpre : call.isPreprocessed = m.isPreprocessed) (hqualified : call.qualified = s.qualified)
    (hwhole : call.isSelective = false) (hwf : call.WellFormed env) (hready : call.Ready env) :
    (importSymbols call.module call.moduleAlias call.isSelective call.symbols).result s = .ok () ∧
      call.Found env
        ((importSymbols call.module call.moduleAlias call.isSelective call.symbols).final s) := by
  have hgood := hs.exports _ m hm
  have himported : call.imported env = (env.exportedNames call.module).map fun name => (name, name) :=
    if_neg (by rw [hwhole]; exact Bool.false_ne_true)
  have hscope : call.scope = call.moduleAlias.getD m.name := by
    rw [ImportCall.scope, hwhole, if_neg Bool.false_ne_true, hgood.name]
  have hmem : ∀ e ∈ m.exports, (e.name, e.name) ∈ call.imported env := fun e he =>
    himported ▸ List.mem_map_of_mem (hgood.exported e he)
  obtain ⟨hresult, hmodules, -, hlookup⟩ := run_registers hwf.validScope
    (f := fun e : ModuleSymbol => moduleRegisterQualifiedSymbol call.scope e.name e.ptr)
    (fun e => (e.name, e.ptr)) (s := s)
    (fun _ _ _ _ => ⟨rfl, rfl⟩) (fun e he => hwf.validNames _ (hmem e he))
    (fun e he => hqualified ▸ hready.unregistered _ (hmem e he)) hgood.nodup
  have hrun := run_module hm
  unfold importSymbols
  rw [hwhole, if_neg Bool.false_ne_true, result_bind, final_bind, hrun.1, hrun.2]
  dsimp only
  rw [← hscope]
  refine ⟨hresult, m, by rw [hmodules, hm], fun x hx => ?_⟩
  rw [himported] at hx
  obtain ⟨name, hname, rfl⟩ := List.mem_map.mp hx
  obtain ⟨e, he⟩ := Option.isSome_iff_exists.mp
    (hgood.complete (hpre ▸ hready.preprocessed) name hname)
  obtain ⟨hmem, rfl⟩ := findExport_eq_some he
  exact ⟨e, he, hlookup e hmem⟩

end Call

/-- The call is recorded with what it has done. -/
theorem holds_observe {s₀ s : ModuleState} (hs : ModuleState.Kept env s₀ s)
    (call : ImportCall) {m : Module} (hm : s.modules call.module = some m)
    (hpre : call.isPreprocessed = m.isPreprocessed) (hqualified : call.qualified = s.qualified)
    (hwf : call.WellFormed env) :
    Holds (fun _ => ModuleState.Kept env s₀) (fun e t => ModuleState.Kept env s₀ t ∧ e.Excused t)
      ((observe call (importSymbols call.module call.moduleAlias call.isSelective
        call.symbols)).result s)
      ((observe call (importSymbols call.module call.moduleAlias call.isSelective
        call.symbols)).final s) := by
  have hkept := triple_importSymbols call.module call.moduleAlias call.isSelective call.symbols s hs
  have hrun : call.Ready env →
      (importSymbols call.module call.moduleAlias call.isSelective call.symbols).result s = .ok () ∧
      call.Found env
        ((importSymbols call.module call.moduleAlias call.isSelective call.symbols).final s) := by
    intro hready
    cases hselective : call.isSelective with
    | true =>
        rw [← hselective]
        exact run_importSymbols_selective hs.linked hm hpre hqualified hselective hwf hready
    | false =>
        rw [← hselective]
        exact run_importSymbols_whole hs.linked hm hpre hqualified hselective hwf hready
  rw [result_observe, final_observe]
  generalize (importSymbols call.module call.moduleAlias call.isSelective call.symbols).final s = t
    at hkept hrun ⊢
  cases hr : (importSymbols call.module call.moduleAlias call.isSelective call.symbols).result s with
  | ok u =>
      rw [hr] at hkept
      exact ModuleState.Kept.record hkept { call with succeeded := true } fun hready =>
        ⟨rfl, (hrun ⟨hready.1, hready.2, hready.3⟩).2⟩
  | error e =>
      rw [hr] at hkept hrun
      refine ⟨ModuleState.Kept.record hkept { call with succeeded := false }
        fun hready => ?_, fun _ _ _ => .inr ⟨_, List.mem_cons_self, rfl⟩⟩
      cases (hrun ⟨hready.1, hready.2, hready.3⟩).1

section Statements

variable {stmts : ASTStmtList} {p q : FilePath} {path : FilePath} {moduleAlias : Option Ident}
  {isSelective : Bool} {symbols : List (Ident × Option Ident)}

/-- The imports of a well-formed graph of modules are well formed. -/
theorem ModuleEnv.WellFormed.call (hwf : env.WellFormed stmts) (hp : env.Reachable stmts p)
    (hmem : ASTStmt.importStmt path moduleAlias isSelective symbols ∈ env.source p)
    (hq : env.moduleResolvePath path (some (dirname p)) = .ok q) (isPreprocessed : Bool)
    (exports : List ModuleSymbol) (qualified : List QualifiedSymbol) (succeeded : Bool) :
    ImportCall.WellFormed env ⟨q, moduleAlias, isSelective, symbols, isPreprocessed, exports,
      qualified, succeeded⟩ := by
  have hreach : env.Reachable stmts q := hp.imports ⟨_, _, _, _, hmem, hq⟩
  have hmodule := hwf.validModule q hreach
  obtain ⟨halias, hsymbols⟩ := hwf.validImport p hp _ _ _ _ hmem
  cases isSelective with
  | true =>
      refine ⟨hmodule, fun x hx => ?_, fun x hx => ?_⟩
      · obtain ⟨symbol, hsymbol, rfl⟩ := List.mem_map.mp hx
        exact hsymbols symbol hsymbol
      · obtain ⟨symbol, hsymbol, rfl⟩ := List.mem_map.mp hx
        exact hwf.exported p hp _ _ _ q hmem hq symbol hsymbol
  | false =>
      refine ⟨?_, fun x hx => ?_, fun x hx => ?_⟩
      · cases moduleAlias with
        | none => exact hmodule
        | some name => exact halias name rfl
      · obtain ⟨name, hname, rfl⟩ := List.mem_map.mp hx
        exact hwf.validExport q hreach name hname
      · obtain ⟨name, hname, rfl⟩ := List.mem_map.mp hx
        exact hname

/-- `process_import_statement`. -/
theorem keepsSymbols_processImportStatement (hwf : env.WellFormed stmts)
    (hp : env.Reachable stmts p)
    (hmem : ASTStmt.importStmt path moduleAlias isSelective symbols ∈ env.source p) :
    KeepsSymbols env
      (processImportStatement env path moduleAlias isSelective symbols (some (dirname p))) := by
  obtain ⟨q, hq⟩ := hwf.resolves p hp _ _ _ _ hmem
  have hreach : env.Reachable stmts q := hp.imports ⟨_, _, _, _, hmem, hq⟩
  refine keepsSymbols_moduleLoad_bind hq ?_
  refine keepsSymbols_bind (keepsSymbols_moduleCompile (hwf.parses q hreach)) fun _ => ?_
  refine keepsSymbols_module_bind fun s₀ s m hs hm => ?_
  rw [result_get_bind, final_get_bind]
  exact holds_observe hs ⟨q, moduleAlias, isSelective, symbols, m.isPreprocessed, m.exports,
    s.qualified, false⟩ hm rfl rfl (hwf.call hp hmem hq _ _ _ _)

/-! ### A module -/

/-- A computation keeps the symbols in order when the registry is in order, and keeps that. -/
def Links (env : ModuleEnv) (m : ModuleM α) : Prop :=
  ∀ s₀, Triple (fun s => s.Good env ∧ ModuleState.Kept env s₀ s) m
    (fun _ s => s.Good env ∧ ModuleState.Kept env s₀ s)
    (fun e s => ModuleState.Kept env s₀ s ∧ e.Excused s)

theorem Links.of_sound {m : ModuleM α} (hkeeps : KeepsSymbols env m) (hsound : Sound env True m) :
    Links env m := by
  intro s₀ s hs
  have hgood := hsound s s ⟨hs.1, .refl s⟩
  have hkept := hkeeps s₀ s hs.2
  cases hr : m.result s with
  | ok a =>
      rw [hr] at hgood hkept
      exact ⟨hgood.good, hkept⟩
  | error e =>
      rw [hr] at hkept
      exact hkept

theorem links_bind {m : ModuleM α} {f : α → ModuleM β} (hm : Links env m)
    (hf : ∀ a, Links env (f a)) : Links env (m >>= f) :=
  fun s₀ => triple_bind (hm s₀) fun a => hf a s₀

theorem links_moduleLoad_bind {dir : Option FilePath} (hq : env.moduleResolvePath path dir = .ok q)
    {f : FilePath → ModuleM β} (hf : Links env (f q)) : Links env (moduleLoad env path dir >>= f) := by
  have hload : Links env (moduleLoad env path dir >>= fun q => pure q) :=
    .of_sound (keepsSymbols_moduleLoad_bind hq (keepsSymbols_pure q))
      (sound_bind (sound_moduleLoad path dir) fun q => sound_pure q)
  intro s₀ s hs
  have hholds := hload s₀ s hs
  unfold moduleLoad at hholds ⊢
  rw [hq] at hholds ⊢
  exact hf s₀ (s.load q path) hholds

/-- An export statement, and what is done with its symbol if it is the default one. -/
theorem holds_export {s₀ s : ModuleState} (hs : ModuleState.Kept env s₀ s) {isDefault : Bool}
    (hmem : ∀ symbol ∈ symbols, symbol.1 ∈ env.exportedNames p) {m : ModuleM Unit}
    (hm : KeepsSymbols env m) :
    Holds (fun _ t => ModuleState.Kept env s₀ t ∧ ∀ symbol ∈ symbols, t.HasExport p symbol.1)
      (fun e t => ModuleState.Kept env s₀ t ∧ e.Excused t)
      ((processExportStatement isDefault symbols p >>= fun _ => m).result s)
      ((processExportStatement isDefault symbols p >>= fun _ => m).final s) := by
  have hexport := holds_processExportStatement hs isDefault hmem
  rw [result_bind, final_bind]
  cases hr : (processExportStatement isDefault symbols p).result s with
  | error e =>
      rw [hr] at hexport
      exact hexport
  | ok u =>
      rw [hr] at hexport
      refine (hm _ _ hexport.1.self).mono (fun _ ht => ⟨hexport.1.trans ht, ?_⟩)
        fun _ ht => ⟨hexport.1.trans ht.1, ht.2⟩
      exact fun symbol hsymbol => (hexport.2 symbol hsymbol).grows ht.grows

/-- **One statement of a module.** -/
theorem holds_preprocessStmt (hwf : env.WellFormed stmts) (hp : env.Reachable stmts p)
    {recurse : FilePath → ModuleM Unit}
    (hrecurse : ∀ q, env.Imports p q → Sound env True (recurse q) ∧ Links env (recurse q))
    {stmt : ASTStmt} (hstmt : stmt ∈ env.source p) (s₀ s : ModuleState) (hgood : s.Good env)
    (hs : ModuleState.Kept env s₀ s) :
    Holds (fun _ t => t.Good env ∧ ModuleState.Kept env s₀ t ∧
        ∀ name ∈ exportedBy stmt, t.HasExport p name)
      (fun e t => ModuleState.Kept env s₀ t ∧ e.Excused t)
      ((preprocessStmt env casts recurse p stmt).result s)
      ((preprocessStmt env casts recurse p stmt).final s) := by
  have hnone : exportedBy stmt = [] → Links env (preprocessStmt env casts recurse p stmt) →
      Holds (fun _ t => t.Good env ∧ ModuleState.Kept env s₀ t ∧
          ∀ name ∈ exportedBy stmt, t.HasExport p name)
        (fun e t => ModuleState.Kept env s₀ t ∧ e.Excused t)
        ((preprocessStmt env casts recurse p stmt).result s)
        ((preprocessStmt env casts recurse p stmt).final s) := by
    intro hnil hlinks
    refine (hlinks s₀ s ⟨hgood, hs⟩).mono (fun _ ht => ⟨ht.1, ht.2, fun name hname => ?_⟩)
      fun _ ht => ht
    rw [hnil] at hname
    cases hname
  have hsound : Sound env True (preprocessStmt env casts recurse p stmt) :=
    sound_preprocessStmt (fun q hq => (hrecurse q hq).1) hstmt
  cases stmt with
  | importStmt path moduleAlias isSelective symbols =>
      obtain ⟨q, hq⟩ := hwf.resolves p hp _ _ _ _ hstmt
      refine hnone rfl (links_bind (.of_sound
        (keepsSymbols_processImportStatement hwf hp hstmt)
        (sound_processImportStatement _ _ _ _ _)) fun _ => links_moduleLoad_bind hq ?_)
      exact (hrecurse q ⟨path, moduleAlias, isSelective, symbols, hstmt, hq⟩).2
  | exportStmt isDefault symbols =>
      have hmem : ∀ symbol ∈ symbols, symbol.1 ∈ env.exportedNames p := fun symbol hsymbol =>
        List.mem_flatMap.mpr ⟨_, hstmt, List.mem_map_of_mem hsymbol⟩
      have hexport : Holds
          (fun _ t => ModuleState.Kept env s₀ t ∧ ∀ symbol ∈ symbols, t.HasExport p symbol.1)
          (fun e t => ModuleState.Kept env s₀ t ∧ e.Excused t)
          ((preprocessStmt env casts recurse p (.exportStmt isDefault symbols)).result s)
          ((preprocessStmt env casts recurse p (.exportStmt isDefault symbols)).final s) := by
        cases isDefault with
        | false => exact holds_export hs hmem (keepsSymbols_pure _)
        | true =>
            cases symbols with
            | nil => exact holds_export hs hmem (keepsSymbols_pure _)
            | cons symbol symbols =>
                exact holds_export hs hmem (keepsSymbols_recordDefaultExport p symbol.1)
      have hfinal := hsound s s ⟨hgood, .refl s⟩
      cases hr : (preprocessStmt env casts recurse p (.exportStmt isDefault symbols)).result s with
      | error e =>
          rw [hr] at hexport
          exact hexport
      | ok u =>
          rw [hr] at hexport hfinal
          refine ⟨hfinal.good, hexport.1, fun name hname => ?_⟩
          obtain ⟨symbol, hsymbol, rfl⟩ := List.mem_map.mp hname
          exact hexport.2 symbol hsymbol
  | funcDecl decl =>
      refine hnone rfl (.of_sound (keepsSymbols_bind (keepsSymbols_registerFunction _)
        fun registered => ?_) hsound)
      split
      · exact keepsSymbols_fail rfl
      · exact keepsSymbols_pure _
  | varDecl name type typeDesc init isConst =>
      refine hnone rfl (.of_sound (keepsSymbols_get_bind fun s => keepsSymbols_bind
        (keepsSymbols_ofExec _) fun r => ?_) hsound)
      refine keepsSymbols_bind
        (keepsSymbols_modify (fun _ => rfl) (fun _ => rfl) fun _ => rfl) fun _ => ?_
      split
      · exact keepsSymbols_fail rfl
      · exact keepsSymbols_pure _
  | _ => exact hnone rfl (.of_sound (keepsSymbols_pure _) hsound)

/-- The statements of a module are preprocessed, and the module is marked: it exports then
what its statements say. -/
theorem holds_markPreprocessed (hwf : env.WellFormed stmts) (hp : env.Reachable stmts p)
    {recurse : FilePath → ModuleM Unit}
    (hrecurse : ∀ q, env.Imports p q → Sound env True (recurse q) ∧ Links env (recurse q))
    {s₀ s : ModuleState} (hgood : s.Good env) (hs : ModuleState.Kept env s₀ s) {list : LinkedList}
    {nodes : List (ℕ × StmtNode)} (hr : s.heap.Represents list nodes)
    (hnodes : nodes.map (·.2) = ModuleEnv.located (.module p) (env.source p)) :
    Holds (fun _ => ModuleState.Kept env s₀) (fun e t => ModuleState.Kept env s₀ t ∧ e.Excused t)
      ((preprocessStmtList env casts recurse list p >>= fun _ =>
        updateModule p fun m => { m with isPreprocessed := true }).result s)
      ((preprocessStmtList env casts recurse list p >>= fun _ =>
        updateModule p fun m => { m with isPreprocessed := true }).final s) := by
  have hread := run_readList hr
  have hstmts : nodes.map (·.2.stmt) = env.source p := by
    rw [← located_map_stmt (.module p) (env.source p), ← hnodes, List.map_map]
    rfl
  have hforM := holds_forM (p := p) (P := ModuleState.Good env)
    (f := fun node => preprocessStmt env casts recurse p node.2.stmt)
    (fun node : ℕ × StmtNode => exportedBy node.2.stmt)
    (fun node hnode t₀ t hgood ht => holds_preprocessStmt hwf hp hrecurse
      (hstmts ▸ List.mem_map_of_mem hnode) t₀ t hgood ht) s₀ s hgood hs
  unfold preprocessStmtList
  rw [bind_assoc, result_bind, final_bind, hread.1, hread.2]
  dsimp only
  rw [result_bind, final_bind]
  cases hresult : (nodes.forM fun node =>
      preprocessStmt env casts recurse p node.2.stmt).result s with
  | error e =>
      rw [hresult] at hforM
      exact hforM
  | ok u =>
      rw [hresult] at hforM
      obtain ⟨-, hkept, hexports⟩ := hforM
      dsimp only
      generalize Stateful.final _ s = t at hkept hexports ⊢
      cases hm : t.modules p with
      | none =>
          unfold updateModule ModuleM.module
          rw [bind_assoc, result_get_bind, final_get_bind, hm]
          exact ⟨hkept, excused_stopped _ _⟩
      | some m =>
          have hmark := run_updateModule hm fun m => { m with isPreprocessed := true }
          have hexportsGood := hkept.linked.exports p m hm
          rw [hmark.1, hmark.2]
          refine hkept.setModule hm (fun _ _ he => he) { hexportsGood with
            complete := fun _ name hname => ?_ }
          obtain ⟨stmt, hstmt, hname⟩ := List.mem_flatMap.mp hname
          rw [← hstmts] at hstmt
          obtain ⟨node, hnode, rfl⟩ := List.mem_map.mp hstmt
          obtain ⟨m', hm', hsome⟩ := hexports node hnode name hname
          obtain rfl := Option.some.inj (hm.symm.trans hm')
          exact hsome

/-- **The symbols of a module and of what it imports.** -/
theorem links_preprocessModule (hwf : env.WellFormed stmts) (n : ℕ) {p : FilePath}
    (hp : env.Reachable stmts p) : Links env (preprocessModule env casts n p) := by
  induction n generalizing p with
  | zero => exact fun s₀ => triple_throw fun _ hs => ⟨hs.2, fun _ h => by cases h⟩
  | succ n ih =>
      intro s₀ s hs
      have hsound : Holds _ _ ((preprocessModule env casts (n + 1) p).result s) _ :=
        sound_preprocessModule (n + 1) p s s ⟨hs.1, .refl s⟩
      suffices hkept : Holds (fun _ => ModuleState.Kept env s₀)
          (fun e t => ModuleState.Kept env s₀ t ∧ e.Excused t)
          ((preprocessModule env casts (n + 1) p).result s)
          ((preprocessModule env casts (n + 1) p).final s) by
        cases hr : (preprocessModule env casts (n + 1) p).result s with
        | error e =>
            rw [hr] at hkept
            exact hkept
        | ok u =>
            rw [hr] at hkept hsound
            exact ⟨hsound.good, hkept⟩
      unfold preprocessModule
      cases hm : s.modules p with
      | none =>
          unfold ModuleM.module
          rw [bind_assoc, result_get_bind, final_get_bind, hm]
          exact ⟨hs.2, excused_stopped _ _⟩
      | some m =>
          have hrun := run_module hm
          rw [result_bind, final_bind, hrun.1, hrun.2]
          dsimp only
          cases hpre : m.isPreprocessed with
          | true => exact hs.2
          | false =>
              rw [if_neg Bool.false_ne_true]
              have hnotIncluded : s.included p = false := by
                rw [ModuleState.included, hm]
                by_contra hi
                have hp := (hs.1 p m hm).preprocessed (Bool.not_eq_false _ ▸ hi)
                rw [hpre] at hp
                cases hp
              have hcompile := triple_moduleCompile (D := True) s p s ⟨hs.1, .refl s⟩
              have hkept := keepsSymbols_moduleCompile (hwf.parses p hp) s₀ s hs.2
              rw [result_bind, final_bind]
              cases hr : (moduleCompile env p).result s with
              | error e =>
                  rw [hr] at hkept
                  exact hkept
              | ok u =>
                  rw [hr] at hcompile hkept
                  obtain ⟨m', hm', hcompiled⟩ := exists_of_compiled hcompile.2
                  obtain ⟨list, nodes, hast, hr, hnodes⟩ := hcompile.1.represents hm' hcompiled
                    ((hcompile.1.ext.included p).trans hnotIncluded)
                  have hrun' := run_module hm'
                  dsimp only
                  rw [result_bind, final_bind, hrun'.1, hrun'.2]
                  dsimp only
                  rw [hast]
                  exact holds_markPreprocessed hwf hp
                    (fun q hq => ⟨sound_preprocessModule n q, ih (hp.imports hq)⟩)
                    hcompile.1.good hkept hr hnodes

end Statements

/-! ### The program -/

theorem keepsSymbols_foldlM {γ : Type} {f : β → γ → ModuleM β}
    (hf : ∀ b c, KeepsSymbols env (f b c)) (cs : List γ) (b : β) :
    KeepsSymbols env (cs.foldlM f b) := by
  induction cs generalizing b with
  | nil => exact keepsSymbols_pure b
  | cons c cs ih =>
      rw [List.foldlM_cons]
      exact keepsSymbols_bind (hf b c) fun b => ih b

/-- A change of the heap. -/
theorem keepsSymbols_heap (f : ModuleState → NodeHeap StmtNode) :
    KeepsSymbols env (modify fun s => { s with heap := f s } : ModuleM Unit) :=
  keepsSymbols_modify (fun _ => rfl) (fun _ => rfl) fun _ => rfl

theorem keepsSymbols_freedAccess : KeepsSymbols env (freedAccess : ModuleM α) :=
  keepsSymbols_throw (excused_stopped _)

theorem keepsSymbols_readList (list : LinkedList) : KeepsSymbols env (readList list) := by
  refine keepsSymbols_get_bind fun s => ?_
  cases s.heap.nodes list with
  | none => exact keepsSymbols_freedAccess
  | some nodes => exact keepsSymbols_pure nodes

theorem keepsSymbols_freeStmtList (list : LinkedList) : KeepsSymbols env (freeStmtList list) :=
  keepsSymbols_bind (keepsSymbols_readList list) fun _ => keepsSymbols_heap _

theorem keepsSymbols_appendStmt (list : LinkedList) (a : ℕ) :
    KeepsSymbols env (appendStmt list a) := by
  refine keepsSymbols_get_bind fun s => ?_
  cases s.heap.append list a with
  | none => exact keepsSymbols_freedAccess
  | some r =>
      exact keepsSymbols_bind (keepsSymbols_heap fun _ => r.1) fun _ => keepsSymbols_pure r.2

theorem keepsSymbols_spliceStmt (program : LinkedList) (node : ℕ × StmtNode) :
    KeepsSymbols env (spliceStmt program node) := by
  refine keepsSymbols_bind (keepsSymbols_heap _) fun _ => ?_
  split
  · exact keepsSymbols_appendStmt program node.1
  · exact keepsSymbols_bind (keepsSymbols_heap _) fun _ => keepsSymbols_pure program

theorem keepsSymbols_includeOnce (out : LinkedList) (p : FilePath) (isIncluded : Bool) :
    KeepsSymbols env (includeOnce out p isIncluded) := by
  unfold includeOnce
  split
  · exact keepsSymbols_pure out
  · refine keepsSymbols_bind (keepsSymbols_module p) fun m => ?_
    cases m.ast with
    | none => exact keepsSymbols_throw (excused_stopped _)
    | some ast =>
        refine keepsSymbols_bind (keepsSymbols_readList ast) fun nodes => ?_
        refine keepsSymbols_bind (keepsSymbols_foldlM keepsSymbols_spliceStmt nodes out) fun _ => ?_
        exact keepsSymbols_bind (keepsSymbols_updateModule fun _ => rfl) fun _ => keepsSymbols_pure _

theorem keepsSymbols_declareAlias (out : LinkedList) (loc : SourceLoc)
    (importAlias : Option Ident) (type : VarType) (name : Ident) (desc : TypeDescriptor) :
    KeepsSymbols env (declareAlias out loc importAlias type name desc) := by
  cases importAlias with
  | none => exact keepsSymbols_pure out
  | some importAlias =>
      refine keepsSymbols_bind (fun s₀ => triple_modifyGet fun s hs => ?_) fun a =>
        keepsSymbols_appendStmt out a
      exact ModuleState.Kept.of_eq hs rfl rfl rfl

theorem ModuleFail.Excused.grows {e : ModuleFail} {s t : ModuleState} (h : e.Excused s)
    (hgrows : s.Grows t) : e.Excused t :=
  fun e' he hofImport => (h e' he hofImport).imp id fun ⟨call, hcall, hfailed⟩ =>
    ⟨call, hgrows.calls call hcall, hfailed⟩

section Program

variable {stmts : ASTStmtList} {n : ℕ}

variable (casts n) in
theorem links_importModule (hwf : env.WellFormed stmts) {path : FilePath}
    {importAlias : Option Ident} {isSelective : Bool} {symbols : List (Ident × Option Ident)}
    (hmem : ASTStmt.importStmt path importAlias isSelective symbols ∈ stmts) :
    Links env (importModule env casts n path) := by
  obtain ⟨p, hp⟩ := hwf.entryResolves _ _ _ _ hmem
  have hreach : env.Reachable stmts p := ⟨p, ⟨_, _, _, _, hmem, hp⟩, .refl⟩
  refine links_moduleLoad_bind hp (links_bind (links_preprocessModule hwf n hreach) fun _ => ?_)
  refine .of_sound (keepsSymbols_bind (keepsSymbols_module p) fun m => ?_)
    (sound_bind (sound_module p) fun m => ?_)
  · cases m.defaultExportName with
    | none => exact keepsSymbols_fail rfl
    | some name =>
        cases m.defaultExportTypeDesc with
        | none => exact keepsSymbols_fail rfl
        | some desc => exact keepsSymbols_pure _
  · cases m.defaultExportName with
    | none => exact sound_throw trivial
    | some name =>
        cases m.defaultExportTypeDesc with
        | none => exact sound_throw trivial
        | some desc => exact sound_pure _

/-- What is freed before an import fails does not touch the symbols. -/
theorem holds_onError {s₀ s : ModuleState} {m : ModuleM α} (handler : ModuleM Unit)
    (hm : Holds (fun _ t => t.Good env ∧ ModuleState.Kept env s₀ t)
      (fun e t => ModuleState.Kept env s₀ t ∧ e.Excused t) (m.result s) (m.final s))
    (hhandler : KeepsSymbols env handler) :
    Holds (fun _ => ModuleState.Kept env s₀) (fun e t => ModuleState.Kept env s₀ t ∧ e.Excused t)
      ((onError m handler).result s) ((onError m handler).final s) := by
  cases hr : m.result s with
  | ok a =>
      have hrun := run_onError_ok handler hr
      rw [hr] at hm
      rw [hrun.1, hrun.2]
      exact hm.2
  | error e =>
      rw [hr] at hm
      cases e with
      | stopped stop =>
          have hrun := run_onError_other handler hr fun _ h => by cases h
          rw [hrun.1, hrun.2]
          exact hm
      | diverges =>
          have hrun := run_onError_other handler hr fun _ h => by cases h
          rw [hrun.1, hrun.2]
          exact hm
      | error e =>
          have hholds := hhandler _ _ hm.1.self
          have hrun : (onError m handler).result s =
                (handler >>= fun _ => fail e : ModuleM α).result (m.final s) ∧
              (onError m handler).final s =
                (handler >>= fun _ => fail e : ModuleM α).final (m.final s) := by
            have hrun : m.run.run s = (.error (.error e), m.final s) := Prod.ext hr rfl
            unfold onError result final at *
            simp only [ExceptT.run_mk, StateT.run] at *
            rw [hrun]
            exact ⟨rfl, rfl⟩
          rw [hrun.1, hrun.2, result_bind, final_bind]
          cases hr' : handler.result (m.final s) with
          | ok u =>
              rw [hr'] at hholds
              exact ⟨hm.1.trans hholds, hm.2.grows hholds.grows⟩
          | error e' =>
              rw [hr'] at hholds
              exact ⟨hm.1.trans hholds.1, hholds.2⟩

variable (casts n) in
/-- **A statement of the program.** -/
theorem holds_moveStmt_symbols (hwf : env.WellFormed stmts) {s₀ s : ModuleState}
    (hgood : s.Good env) (hs : ModuleState.Kept env s₀ s) (out : LinkedList) (a : ℕ)
    {node : StmtNode} (hmem : node.stmt ∈ stmts) :
    Holds (fun _ => ModuleState.Kept env s₀) (fun e t => ModuleState.Kept env s₀ t ∧ e.Excused t)
      ((moveStmt env casts n out a node).result s) ((moveStmt env casts n out a node).final s) := by
  unfold moveStmt
  cases hstmt : node.stmt with
  | importStmt path importAlias isSelective symbols =>
      rw [hstmt] at hmem
      have himport := holds_onError (freeStmt a >>= fun _ => freeStmtList out)
        (links_importModule casts n hwf hmem s₀ s ⟨hgood, hs⟩)
        (keepsSymbols_bind (keepsSymbols_heap _) fun _ => keepsSymbols_freeStmtList out)
      dsimp only
      unfold includeImport
      rw [result_bind, final_bind]
      cases hr : (onError (importModule env casts n path)
          (freeStmt a >>= fun _ => freeStmtList out)).result s with
      | error e =>
          rw [hr] at himport
          exact himport
      | ok r =>
          rw [hr] at himport
          refine keepsSymbols_bind (keepsSymbols_module r.1) (fun m => ?_) s₀ _ himport
          refine keepsSymbols_bind (keepsSymbols_includeOnce out r.1 m.isIncluded) fun out => ?_
          refine keepsSymbols_bind (keepsSymbols_declareAlias out node.loc importAlias
            m.defaultExportType r.2.1 r.2.2) fun out => ?_
          exact keepsSymbols_bind (keepsSymbols_heap _) fun _ => keepsSymbols_pure out
  | exportStmt isDefault symbols =>
      exact keepsSymbols_bind (keepsSymbols_heap _) (fun _ => keepsSymbols_pure out) s₀ s hs
  | _ => exact keepsSymbols_appendStmt out a s₀ s hs

variable (casts n) in
/-- **The loop**, by induction on the statements that are to come. -/
theorem holds_loop_symbols (hwf : env.WellFormed stmts) (rest : List (ℕ × StmtNode)) :
    ∀ {s₀ s : ModuleState} {next : Option ℕ} {out : LinkedList} {done : List (ℕ × StmtNode)}
      (k : ℕ), ProgramInv env s next rest out done → ModuleState.Kept env s₀ s →
      (∀ x ∈ rest, x.2.stmt ∈ stmts) →
      Holds (fun _ => ModuleState.Kept env s₀)
        (fun e t => ModuleState.Kept env s₀ t ∧ e.Excused t)
        ((Stateful.loop .diverges (preprocessProgramTurn env casts n) k (next, out)).result s)
        ((Stateful.loop .diverges (preprocessProgramTurn env casts n) k (next, out)).final s) := by
  induction rest with
  | nil =>
      intro s₀ s next out done k h hs _
      cases k with
      | zero => exact ⟨hs, fun _ he => by cases he⟩
      | succ k =>
          obtain rfl : next = none := h.restChain
          exact hs
  | cons x rest ih =>
      intro s₀ s next out done k h hs hmem
      cases k with
      | zero => exact ⟨hs, fun _ he => by cases he⟩
      | succ k =>
          obtain ⟨a, v⟩ := x
          obtain rfl : next = some a := h.restChain.1
          obtain ⟨next, s₁, hinv, hheld, ⟨heap, rfl⟩, -, hresult, hfinal⟩ :=
            run_preprocessProgramTurn casts n h
          have hmove := holds_moveStmt casts n (D := True) hinv hheld
            fun p _ => sound_preprocessModule n p
          have hkept := holds_moveStmt_symbols casts n hwf hinv.good
            (hs.of_eq (t := { s with heap }) rfl rfl rfl) out a (hmem (a, v) List.mem_cons_self)
          unfold Stateful.loop
          rw [result_bind, final_bind, hresult, hfinal]
          cases hr : (moveStmt env casts n out a v).result { s with heap } with
          | error e =>
              rw [hr] at hkept
              exact hkept
          | ok out₁ =>
              rw [hr] at hmove hkept
              obtain ⟨new, hinv₁, -, -, -⟩ := hmove
              exact ih k hinv₁ hkept fun x hx => hmem x (List.mem_cons_of_mem _ hx)

end Program

/-! ### The run -/

/-- **What the imports of a run are for**: each of them succeeds, and what it imports is found
at the end. -/
structure ImportsFound (env : ModuleEnv) (result : Except ModuleFail LinkedList)
    (final : ModuleState) : Prop where
  succeeded : ∀ call ∈ final.imports, call.succeeded = true
  noError : ∀ e, result = .error (.error e) → e.ofImport = false
  found : ∀ call ∈ final.imports, call.Found env final

theorem linked_init (heap : NodeHeap StmtNode) :
    ModuleState.Linked env { ModuleState.init with heap } :=
  ⟨fun _ _ hm => (by cases hm), fun _ hcall => absurd hcall List.not_mem_nil⟩

/-- The module `a.bread` imports `y` from `b.bread`, which exports it. -/
def selectiveImport : ModuleEnv where
  files := [("./a.bread".toList,
      some (.importStmt "b".toList none true [("y".toList, none)] :: exportedConstant "x" 1)),
    ("./b.bread".toList, some (exportedConstant "y" 2))]
  searchPaths := [".".toList]

namespace selectiveImport

variable {stmts : ASTStmtList} {p : FilePath}

theorem mem_of_reachable (hstmts : ∀ p ∈ selectiveImport.importsOf none stmts,
      p ∈ ["./a.bread".toList, "./b.bread".toList]) (h : selectiveImport.Reachable stmts p) :
    p = "./a.bread".toList ∨ p = "./b.bread".toList := by
  have hmem := ModuleEnv.mem_of_reachable _ hstmts (by decide +kernel) h
  rcases List.mem_cons.mp hmem with hp | hp
  · exact .inl hp
  · exact .inr (List.mem_singleton.mp hp)

/-- The only import statement of the two modules. -/
theorem eq_of_importStmt (hp : p = "./a.bread".toList ∨ p = "./b.bread".toList) {path : FilePath}
    {moduleAlias : Option Ident} {isSelective : Bool} {symbols : List (Ident × Option Ident)}
    (hmem : ASTStmt.importStmt path moduleAlias isSelective symbols ∈ selectiveImport.source p) :
    p = "./a.bread".toList ∧ path = "b".toList ∧ moduleAlias = none ∧
      symbols = [("y".toList, none)] := by
  rcases hp with rfl | rfl
  · rw [show selectiveImport.source _ = .importStmt "b".toList none true [("y".toList, none)] ::
      exportedConstant "x" 1 by rfl] at hmem
    rcases List.mem_cons.mp hmem with h | h
    · cases h
      exact ⟨rfl, rfl, rfl, rfl⟩
    · simp [exportedConstant] at h
  · rw [show selectiveImport.source _ = exportedConstant "y" 2 by rfl] at hmem
    simp [exportedConstant] at hmem

theorem wellFormed (hentry : ∀ path moduleAlias isSelective symbols,
      ASTStmt.importStmt path moduleAlias isSelective symbols ∈ stmts →
        ∃ p, selectiveImport.moduleResolvePath path none = .ok p)
    (hstmts : ∀ p ∈ selectiveImport.importsOf none stmts,
      p ∈ ["./a.bread".toList, "./b.bread".toList]) : selectiveImport.WellFormed stmts where
  entryResolves := hentry
  resolves p hp path moduleAlias isSelective symbols hmem := by
    obtain ⟨rfl, rfl, -, -⟩ := eq_of_importStmt (mem_of_reachable hstmts hp) hmem
    exact ⟨"./b.bread".toList, by decide +kernel⟩
  parses p hp := by
    rcases mem_of_reachable hstmts hp with rfl | rfl <;> rfl
  exported p hp path moduleAlias symbols q hmem hq := by
    obtain ⟨rfl, rfl, -, rfl⟩ := eq_of_importStmt (mem_of_reachable hstmts hp) hmem
    obtain rfl : "./b.bread".toList = q := by
      rw [show selectiveImport.moduleResolvePath "b".toList _ = .ok "./b.bread".toList by
        decide +kernel] at hq
      cases hq
      rfl
    decide +kernel
  validModule p hp := by
    rcases mem_of_reachable hstmts hp with rfl | rfl <;> decide +kernel
  validExport p hp := by
    rcases mem_of_reachable hstmts hp with rfl | rfl <;> decide +kernel
  validImport p hp path moduleAlias isSelective symbols hmem := by
    obtain ⟨-, -, rfl, rfl⟩ := eq_of_importStmt (mem_of_reachable hstmts hp) hmem
    exact ⟨fun name h => (by cases h), by decide +kernel⟩

theorem importOf_resolves (names : List String) (hnames : ∀ name ∈ names,
      ∃ p, selectiveImport.moduleResolvePath name.toList none = .ok p) (path : FilePath)
    (moduleAlias : Option Ident) (isSelective : Bool) (symbols : List (Ident × Option Ident))
    (hmem : ASTStmt.importStmt path moduleAlias isSelective symbols ∈ names.map importOf) :
    ∃ p, selectiveImport.moduleResolvePath path none = .ok p := by
  obtain ⟨name, hname, h⟩ := List.mem_map.mp hmem
  cases h
  exact hnames name hname

end selectiveImport

/-- There is one call in that run, and one in the run where the order is the other one. -/
example :
    ((preprocessEntry selectiveImport noCasts 5 (["b", "a"].map importOf)).final .init).imports.map
        (·.succeeded) = [true] ∧
      ((preprocessEntry selectiveImport noCasts 5 (["a", "b"].map importOf)).final .init).imports.map
        (·.succeeded) = [false] := by
  decide +kernel

end BreadLang
