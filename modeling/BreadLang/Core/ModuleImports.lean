import BreadLang.Core.ModuleTermination

/-!
# Imports of modules by modules

What `process_import_statement` finds and leaves, over a whole run of the pass.  It
reads the exports of a module that it has only compiled, and these are filled in when
the module is preprocessed, after the import; and it registers the imported symbols in
one table for all modules, which refuses a name that it has.

An import of a module that has been preprocessed before, of symbols that no import has
registered before, succeeds, and the symbols stay where it has put them.
-/

namespace BreadLang

open Stateful ModuleM Relation

/-! ### What an import asks for -/

/-- The names in an export statement. -/
def exportedBy : ASTStmt → List Ident
  | .exportStmt _ symbols => symbols.map (·.1)
  | _ => []

/-- The symbols that the export statements of a file name. -/
def ModuleEnv.exportedNames (env : ModuleEnv) (p : FilePath) : List Ident :=
  (env.source p).flatMap exportedBy

/-- The errors that `process_import_statement` sets. -/
def ModuleError.ofImport : ModuleError → Bool
  | .fileNotFound _ | .pathTooLong | .circularDependency _ | .parseFailed _ | .notExported _ _
  | .invalidParameters | .invalidName _ _ | .alreadyRegistered _ => true
  | _ => false

namespace ImportCall

variable (env : ModuleEnv) (call : ImportCall)

/-- The name before the dot in the names that an import registers. -/
def scope : Ident :=
  if call.isSelective then moduleGetNameFromPath call.module
  else call.moduleAlias.getD (moduleGetNameFromPath call.module)

/-- The symbols that are imported, each with its name after the dot. -/
def imported : List (Ident × Ident) :=
  if call.isSelective then call.symbols.map fun symbol => (symbol.1, symbol.2.getD symbol.1)
  else (env.exportedNames call.module).map fun name => (name, name)

/-- **An import at the right moment**: its module has been preprocessed, and the names
that it registers are distinct and have not been registered. -/
structure Ready : Prop where
  preprocessed : call.isPreprocessed = true
  unregistered : ∀ x ∈ call.imported env,
    moduleLookupSymbol call.qualified (qualify call.scope x.2) = none
  distinct : call.isSelective = true →
    (call.symbols.map fun symbol => symbol.2.getD symbol.1).Nodup

instance : Decidable (call.Ready env) :=
  decidable_of_iff
    (call.isPreprocessed = true ∧
      (∀ x ∈ call.imported env,
        moduleLookupSymbol call.qualified (qualify call.scope x.2) = none) ∧
      (call.isSelective = true →
        (call.symbols.map fun symbol => symbol.2.getD symbol.1).Nodup))
    ⟨fun h => ⟨h.1, h.2.1, h.2.2⟩, fun h => ⟨h.preprocessed, h.unregistered, h.distinct⟩⟩

/-- **The symbols of an import are found**: under the name that the import registers, the
table has what the module exports. -/
def Found (s : ModuleState) : Prop :=
  ∃ m, s.modules call.module = some m ∧ ∀ x ∈ call.imported env, ∃ exported,
    moduleFindExport m.exports x.1 = some exported ∧
      moduleLookupSymbol s.qualified (qualify call.scope x.2) = some exported.ptr

end ImportCall

/-- **A graph of modules in which the imports ask for what there is**: every file is found
and can be parsed, every symbol of a selective import is exported by its module, and the
names are valid. -/
structure ModuleEnv.WellFormed (env : ModuleEnv) (stmts : ASTStmtList) : Prop where
  entryResolves : ∀ path moduleAlias isSelective symbols,
    ASTStmt.importStmt path moduleAlias isSelective symbols ∈ stmts →
      ∃ p, env.moduleResolvePath path none = .ok p
  resolves : ∀ p, env.Reachable stmts p → ∀ path moduleAlias isSelective symbols,
    ASTStmt.importStmt path moduleAlias isSelective symbols ∈ env.source p →
      ∃ q, env.moduleResolvePath path (some (dirname p)) = .ok q
  parses : ∀ p, env.Reachable stmts p → (env.file p).join.isSome = true
  exported : ∀ p, env.Reachable stmts p → ∀ path moduleAlias symbols q,
    ASTStmt.importStmt path moduleAlias true symbols ∈ env.source p →
      env.moduleResolvePath path (some (dirname p)) = .ok q →
        ∀ symbol ∈ symbols, symbol.1 ∈ env.exportedNames q
  validModule : ∀ p, env.Reachable stmts p →
    moduleIsValidIdentifier (moduleGetNameFromPath p) = true
  validExport : ∀ p, env.Reachable stmts p → ∀ name ∈ env.exportedNames p,
    moduleIsValidIdentifier name = true
  validImport : ∀ p, env.Reachable stmts p → ∀ path moduleAlias isSelective symbols,
    ASTStmt.importStmt path moduleAlias isSelective symbols ∈ env.source p →
      (∀ name, moduleAlias = some name → moduleIsValidIdentifier name = true) ∧
        ∀ symbol ∈ symbols, moduleIsValidIdentifier (symbol.2.getD symbol.1) = true

/-! ### The tables -/

theorem qualify_injective (scope : Ident) : Function.Injective (qualify scope) := by
  intro x y h
  have htail := List.append_cancel_left h
  exact (List.cons.inj htail).2

theorem lookup_cons (table : List QualifiedSymbol) (name other : Ident) (ptr : SymbolPtr) :
    moduleLookupSymbol (⟨name, ptr⟩ :: table) other =
      if name = other then some ptr else moduleLookupSymbol table other := by
  unfold moduleLookupSymbol
  by_cases heq : name = other
  · rw [List.find?_cons_of_pos (by simpa using heq), if_pos heq]
    rfl
  · rw [List.find?_cons_of_neg (by simpa using heq), if_neg heq]

theorem any_eq_false_of_lookup {table : List QualifiedSymbol} {name : Ident}
    (h : moduleLookupSymbol table name = none) :
    table.any (·.qualifiedName == name) = false := by
  unfold moduleLookupSymbol at h
  rw [Option.map_eq_none_iff, List.find?_eq_none] at h
  rw [List.any_eq_false]
  exact h

theorem lookup_of_any_eq_false {table : List QualifiedSymbol} {name : Ident}
    (h : table.any (·.qualifiedName == name) = false) : moduleLookupSymbol table name = none := by
  unfold moduleLookupSymbol
  rw [Option.map_eq_none_iff, List.find?_eq_none]
  rwa [List.any_eq_false] at h

/-- A symbol that is put into a list of exports hides none of those in it. -/
theorem findExport_cons {exports : List ModuleSymbol} {symbol e : ModuleSymbol} {name : Ident}
    (hnew : moduleFindExport exports symbol.name = none)
    (h : moduleFindExport exports name = some e) :
    moduleFindExport (symbol :: exports) name = some e := by
  have hne : symbol.name ≠ name := by
    rintro rfl
    rw [h] at hnew
    cases hnew
  unfold moduleFindExport at *
  rwa [List.find?_cons_of_neg (by simpa using hne)]

theorem findExport_self (exports : List ModuleSymbol) (symbol : ModuleSymbol) :
    moduleFindExport (symbol :: exports) symbol.name = some symbol := by
  unfold moduleFindExport
  rw [List.find?_cons_of_pos (by simp)]

theorem findExport_eq_some {exports : List ModuleSymbol} {e : ModuleSymbol} {name : Ident}
    (h : moduleFindExport exports name = some e) : e ∈ exports ∧ e.name = name :=
  ⟨List.mem_of_find?_eq_some h, by simpa using List.find?_some h⟩

theorem findExport_eq_none {exports : List ModuleSymbol} {name : Ident}
    (h : moduleFindExport exports name = none) : name ∉ exports.map (·.name) := by
  unfold moduleFindExport at h
  rw [List.find?_eq_none] at h
  intro hmem
  obtain ⟨e, he, heq⟩ := List.mem_map.mp hmem
  exact h e he (by simpa using heq)

/-! ### The invariant -/

/-- What the table of symbols depends on in the record of a module. -/
def Module.view (m : Module) : Ident × List ModuleSymbol × Bool :=
  (m.name, m.exports, m.isPreprocessed)

/-- A module exports a symbol. -/
def ModuleState.HasExport (s : ModuleState) (p : FilePath) (name : Ident) : Prop :=
  ∃ m, s.modules p = some m ∧ (moduleFindExport m.exports name).isSome = true

/-- The exports of one module are in order. -/
structure Module.ExportsGood (env : ModuleEnv) (p : FilePath) (m : Module) : Prop where
  name : m.name = moduleGetNameFromPath p
  exported : ∀ e ∈ m.exports, e.name ∈ env.exportedNames p
  nodup : (m.exports.map (·.name)).Nodup
  complete : m.isPreprocessed = true → ∀ name ∈ env.exportedNames p,
    (moduleFindExport m.exports name).isSome = true

/-- What is exported and registered stays. -/
structure ModuleState.Grows (s t : ModuleState) : Prop where
  modules : ∀ p m, s.modules p = some m → ∃ m', t.modules p = some m' ∧
    ∀ name e, moduleFindExport m.exports name = some e → moduleFindExport m'.exports name = some e
  qualified : ∀ name ptr, moduleLookupSymbol s.qualified name = some ptr →
    moduleLookupSymbol t.qualified name = some ptr
  calls : ∀ call ∈ s.imports, call ∈ t.imports

/-- **The symbols are in order**: the exports of each module, and the symbols of each import
that came at the right moment. -/
structure ModuleState.Linked (env : ModuleEnv) (s : ModuleState) : Prop where
  exports : ∀ p m, s.modules p = some m → m.ExportsGood env p
  calls : ∀ call ∈ s.imports, call.Ready env → call.succeeded = true ∧ call.Found env s

/-- The symbols are in order, in a state that has those of an earlier one. -/
structure ModuleState.Kept (env : ModuleEnv) (s₀ s : ModuleState) : Prop where
  linked : s.Linked env
  grows : s₀.Grows s

namespace ModuleState

variable {env : ModuleEnv} {s₀ s t u : ModuleState} {p : FilePath} {m m' : Module}

theorem Grows.refl (s : ModuleState) : s.Grows s :=
  ⟨fun _ m hm => ⟨m, hm, fun _ _ h => h⟩, fun _ _ h => h, fun _ h => h⟩

theorem Grows.trans (h : s.Grows t) (h' : t.Grows u) : s.Grows u where
  modules p m hm := by
    obtain ⟨m₁, hm₁, hfind⟩ := h.modules p m hm
    obtain ⟨m₂, hm₂, hfind'⟩ := h'.modules p m₁ hm₁
    exact ⟨m₂, hm₂, fun name e he => hfind' name e (hfind name e he)⟩
  qualified name ptr hlookup := h'.qualified name ptr (h.qualified name ptr hlookup)
  calls call hcall := h'.calls call (h.calls call hcall)

theorem HasExport.grows {name : Ident} (h : s.HasExport p name) (hgrows : s.Grows t) :
    t.HasExport p name := by
  obtain ⟨m, hm, hsome⟩ := h
  obtain ⟨m', hm', hfind⟩ := hgrows.modules p m hm
  obtain ⟨e, he⟩ := Option.isSome_iff_exists.mp hsome
  exact ⟨m', hm', Option.isSome_iff_exists.mpr ⟨e, hfind name e he⟩⟩

end ModuleState

section Keeping

variable {env : ModuleEnv} {s₀ s t u : ModuleState} {p : FilePath} {m m' : Module}

theorem ImportCall.Found.grows {call : ImportCall} (h : call.Found env s)
    (hgrows : s.Grows t) : call.Found env t := by
  obtain ⟨m, hm, hfound⟩ := h
  obtain ⟨m', hm', hfind⟩ := hgrows.modules _ m hm
  refine ⟨m', hm', fun x hx => ?_⟩
  obtain ⟨exported, hexported, hlookup⟩ := hfound x hx
  exact ⟨exported, hfind _ _ hexported, hgrows.qualified _ _ hlookup⟩

/-- A step that records no call. -/
theorem ModuleState.Kept.step (h : ModuleState.Kept env s₀ s) (hgrows : s.Grows t) (himports : t.imports = s.imports)
    (hexports : ∀ p m, t.modules p = some m → m.ExportsGood env p) :
    ModuleState.Kept env s₀ t where
  linked := ⟨hexports, fun call hcall hready => by
    rw [himports] at hcall
    exact (h.linked.calls call hcall hready).imp id (·.grows hgrows)⟩
  grows := h.grows.trans hgrows

theorem ModuleState.Kept.trans (h : ModuleState.Kept env s₀ s) (h' : ModuleState.Kept env s t) :
    ModuleState.Kept env s₀ t :=
  ⟨h'.linked, h.grows.trans h'.grows⟩

theorem ModuleState.Kept.self (h : ModuleState.Kept env s₀ s) : ModuleState.Kept env s s :=
  ⟨h.linked, .refl s⟩

/-- The exports of a module depend on its view. -/
theorem Module.ExportsGood.of_view (h : m.ExportsGood env p)
    (hview : m'.view = m.view) : m'.ExportsGood env p := by
  obtain ⟨hname, hrest⟩ := Prod.mk.inj hview
  obtain ⟨hexports, hpre⟩ := Prod.mk.inj hrest
  exact ⟨hname.trans h.name, hexports ▸ h.exported, hexports ▸ h.nodup,
    fun hp => hexports ▸ h.complete (hpre ▸ hp)⟩

/-- A change of what the symbols do not depend on. -/
theorem ModuleState.Kept.of_eq (h : ModuleState.Kept env s₀ s) (hmodules : t.modules = s.modules)
    (hqualified : t.qualified = s.qualified) (himports : t.imports = s.imports) :
    ModuleState.Kept env s₀ t :=
  h.step ⟨fun _ m hm => ⟨m, hmodules ▸ hm, fun _ _ he => he⟩, fun _ _ hl => hqualified ▸ hl,
    fun _ hc => himports ▸ hc⟩ himports
    fun p m hm => h.linked.exports p m (hmodules ▸ hm)

/-- A change of one record that loses no export. -/
theorem ModuleState.Kept.setModule (h : ModuleState.Kept env s₀ s) (hm : s.modules p = some m)
    (hfind : ∀ name e, moduleFindExport m.exports name = some e →
      moduleFindExport m'.exports name = some e)
    (hm' : m'.ExportsGood env p) : ModuleState.Kept env s₀ (s.setModule p m') := by
  refine h.step ⟨fun q n hn => ?_, fun _ _ hl => hl, fun _ hc => hc⟩ rfl fun q n hn => ?_
  · by_cases heq : q = p
    · subst heq
      obtain rfl := Option.some.inj (hm.symm.trans hn)
      exact ⟨m', modules_setModule_self .., hfind⟩
    · exact ⟨n, (modules_setModule_of_ne _ _ heq).trans hn, fun _ _ he => he⟩
  · by_cases heq : q = p
    · subst heq
      obtain rfl := Option.some.inj ((modules_setModule_self ..).symm.trans hn)
      exact hm'
    · rw [modules_setModule_of_ne _ _ heq] at hn
      exact h.linked.exports q n hn

/-- A new record. -/
theorem ModuleState.Kept.load (h : ModuleState.Kept env s₀ s) (p path : FilePath) :
    ModuleState.Kept env s₀ (s.load p path) := by
  unfold ModuleState.load
  cases hm : s.modules p with
  | some m => exact h
  | none =>
      refine h.step ⟨fun q n hn => ⟨n, ?_, fun _ _ he => he⟩, fun _ _ hl => hl, fun _ hc => hc⟩ rfl
        fun q n hn => ?_
      · refine (modules_setModule_of_ne _ _ fun heq => ?_).trans hn
        rw [heq, hm] at hn
        cases hn
      · by_cases heq : q = p
        · subst heq
          obtain rfl := Option.some.inj ((modules_setModule_self ..).symm.trans hn)
          exact ⟨rfl, fun _ he => (by cases he), List.nodup_nil, fun hp => (by cases hp)⟩
        · rw [modules_setModule_of_ne _ _ heq] at hn
          exact h.linked.exports q n hn

/-- A new symbol in the table. -/
theorem ModuleState.Kept.register (h : ModuleState.Kept env s₀ s) {name : Ident} (ptr : SymbolPtr)
    (hnew : moduleLookupSymbol s.qualified name = none) :
    ModuleState.Kept env s₀ { s with qualified := ⟨name, ptr⟩ :: s.qualified } := by
  refine h.step ⟨fun p m hm => ⟨m, hm, fun _ _ he => he⟩, fun other found hl => ?_,
    fun _ hc => hc⟩ rfl h.linked.exports
  show moduleLookupSymbol (⟨name, ptr⟩ :: s.qualified) other = some found
  rw [lookup_cons, if_neg]
  · exact hl
  · rintro rfl
    rw [hnew] at hl
    cases hl

/-- A call is recorded. -/
theorem ModuleState.Kept.record (h : ModuleState.Kept env s₀ s) (call : ImportCall)
    (hcall : call.Ready env → call.succeeded = true ∧ call.Found env s) :
    ModuleState.Kept env s₀ { s with imports := call :: s.imports } := by
  refine ⟨⟨h.linked.exports, fun other hother hready => ?_⟩, h.grows.modules,
    h.grows.qualified, fun c hc => List.mem_cons_of_mem _ (h.grows.calls c hc)⟩
  rcases List.mem_cons.mp hother with rfl | hother
  · exact hcall hready
  · exact h.linked.calls other hother hready

end Keeping

/-! ### Computations that keep the symbols -/

/-- The failure is that of an import only if a call is recorded to have failed. -/
def ModuleFail.Excused (e : ModuleFail) (s : ModuleState) : Prop :=
  ∀ e', e = .error e' → e'.ofImport = true →
    (∃ name, e' = .circularDependency name) ∨ ∃ call ∈ s.imports, call.succeeded = false

/-- **A computation keeps the symbols in order.** -/
def KeepsSymbols (env : ModuleEnv) {α : Type} (m : ModuleM α) : Prop :=
  ∀ s₀, Triple (ModuleState.Kept env s₀) m (fun _ => ModuleState.Kept env s₀)
    (fun e s => ModuleState.Kept env s₀ s ∧ e.Excused s)

theorem excused_error {e : ModuleError} (h : e.ofImport = false) (s : ModuleState) :
    ModuleFail.Excused (.error e) s := by
  rintro _ ⟨⟩ h'
  rw [h] at h'
  cases h'

theorem excused_stopped (stop : Stop) (s : ModuleState) : ModuleFail.Excused (.stopped stop) s :=
  fun _ h => by cases h

section Rules

variable {env : ModuleEnv} {casts : NumericCasts} {α β : Type}

theorem keepsSymbols_pure (a : α) : KeepsSymbols env (pure a : ModuleM α) :=
  fun _ => triple_pure fun _ h => h

theorem keepsSymbols_throw {e : ModuleFail} (h : ∀ s, e.Excused s) :
    KeepsSymbols env (throw e : ModuleM α) :=
  fun _ => triple_throw fun s hs => ⟨hs, h s⟩

theorem keepsSymbols_fail {e : ModuleError} (h : e.ofImport = false) :
    KeepsSymbols env (fail e : ModuleM α) :=
  keepsSymbols_throw (excused_error h)

theorem keepsSymbols_bind {m : ModuleM α} {f : α → ModuleM β} (hm : KeepsSymbols env m)
    (hf : ∀ a, KeepsSymbols env (f a)) : KeepsSymbols env (m >>= f) :=
  fun s₀ => triple_bind (hm s₀) fun a => hf a s₀

theorem keepsSymbols_get_bind {f : ModuleState → ModuleM β} (hf : ∀ s, KeepsSymbols env (f s)) :
    KeepsSymbols env (get >>= f : ModuleM β) :=
  fun s₀ s hs => hf s s₀ s hs

theorem keepsSymbols_modify {f : ModuleState → ModuleState}
    (hmodules : ∀ s, (f s).modules = s.modules) (hqualified : ∀ s, (f s).qualified = s.qualified)
    (himports : ∀ s, (f s).imports = s.imports) : KeepsSymbols env (modify f : ModuleM Unit) :=
  fun _ => triple_modify fun s hs => hs.of_eq (hmodules s) (hqualified s) (himports s)

theorem keepsSymbols_module (p : FilePath) : KeepsSymbols env (ModuleM.module p) := by
  refine keepsSymbols_get_bind fun s => ?_
  cases s.modules p with
  | none => exact keepsSymbols_throw (excused_stopped _)
  | some m => exact keepsSymbols_pure m

/-- A computation that starts by reading the record of a module. -/
theorem keepsSymbols_module_bind {p : FilePath} {f : Module → ModuleM β}
    (hf : ∀ s₀ s m, ModuleState.Kept env s₀ s → s.modules p = some m →
      Holds (fun _ => ModuleState.Kept env s₀) (fun e t => ModuleState.Kept env s₀ t ∧ e.Excused t)
        ((f m).result s) ((f m).final s)) :
    KeepsSymbols env (ModuleM.module p >>= f) := by
  intro s₀ s hs
  cases hm : s.modules p with
  | none =>
      unfold ModuleM.module
      rw [bind_assoc, result_get_bind, final_get_bind, hm]
      exact ⟨hs, excused_stopped _ _⟩
  | some m =>
      have hrun := run_module hm
      rw [result_bind, final_bind, hrun.1, hrun.2]
      exact hf s₀ s m hs hm

/-- A change of a record that the symbols do not depend on. -/
theorem keepsSymbols_updateModule {p : FilePath} {f : Module → Module}
    (hf : ∀ m, (f m).view = m.view) : KeepsSymbols env (updateModule p f) := by
  refine keepsSymbols_module_bind fun s₀ s m hs hm => ?_
  have hexports : (f m).exports = m.exports := (Prod.mk.inj (Prod.mk.inj (hf m)).2).1
  exact hs.setModule hm (fun _ _ he => hexports ▸ he) ((hs.linked.exports p m hm).of_view (hf m))

theorem keepsSymbols_ofExec (x : Exec α) : KeepsSymbols env (ofExec x) := by
  cases x with
  | ok a => exact keepsSymbols_pure a
  | error e => exact keepsSymbols_throw (excused_stopped e)

theorem keepsSymbols_registerFunction (fn : Function) : KeepsSymbols env (registerFunction fn) := by
  refine keepsSymbols_get_bind fun s => ?_
  dsimp only
  split
  · exact keepsSymbols_pure false
  · exact keepsSymbols_bind (keepsSymbols_modify (fun _ => rfl) (fun _ => rfl) fun _ => rfl)
      fun _ => keepsSymbols_pure true

/-! ### Exports -/

/-- A symbol that is exported is one of those that the module exports then. -/
theorem holds_moduleAddExport {s₀ s : ModuleState} (hs : ModuleState.Kept env s₀ s) {p : FilePath}
    (symbol : ModuleSymbol) (hsymbol : symbol.name ∈ env.exportedNames p) :
    Holds (fun _ t => ModuleState.Kept env s₀ t ∧ t.HasExport p symbol.name)
      (fun e t => ModuleState.Kept env s₀ t ∧ e.Excused t)
      ((moduleAddExport p symbol).result s) ((moduleAddExport p symbol).final s) := by
  unfold moduleAddExport
  cases hm : s.modules p with
  | none =>
      unfold ModuleM.module
      rw [bind_assoc, result_get_bind, final_get_bind, hm]
      exact ⟨hs, excused_stopped _ _⟩
  | some m =>
      have hrun := run_module hm
      rw [result_bind, final_bind, hrun.1, hrun.2]
      dsimp only
      cases hfind : moduleFindExport m.exports symbol.name with
      | some e => exact ⟨hs, excused_error rfl _⟩
      | none =>
          rw [Option.isSome_none, if_neg Bool.false_ne_true]
          split
          · exact ⟨hs, excused_error rfl _⟩
          · have hgood := hs.linked.exports p m hm
            have hupdate := run_updateModule hm fun m => { m with exports := symbol :: m.exports }
            rw [hupdate.1, hupdate.2]
            have hcons : ∀ name e, moduleFindExport m.exports name = some e →
                moduleFindExport (symbol :: m.exports) name = some e :=
              fun _ _ => findExport_cons hfind
            refine ⟨hs.setModule hm hcons ⟨hgood.name, fun e he => ?_, ?_, fun hp name hname => ?_⟩,
              _, ModuleState.modules_setModule_self .., ?_⟩
            · rcases List.mem_cons.mp he with rfl | he
              · exact hsymbol
              · exact hgood.exported e he
            · rw [List.map_cons, List.nodup_cons]
              exact ⟨findExport_eq_none hfind, hgood.nodup⟩
            · obtain ⟨e, he⟩ := Option.isSome_iff_exists.mp (hgood.complete hp name hname)
              exact Option.isSome_iff_exists.mpr ⟨e, hcons name e he⟩
            · rw [findExport_self]
              rfl

theorem holds_exportSymbol {s₀ s : ModuleState} (hs : ModuleState.Kept env s₀ s) {p : FilePath}
    {isDefault : Bool} {symbol : Ident × Option Ident} (hsymbol : symbol.1 ∈ env.exportedNames p) :
    Holds (fun _ t => ModuleState.Kept env s₀ t ∧ t.HasExport p symbol.1)
      (fun e t => ModuleState.Kept env s₀ t ∧ e.Excused t)
      ((exportSymbol p isDefault symbol).result s) ((exportSymbol p isDefault symbol).final s) := by
  unfold exportSymbol
  dsimp only
  split
  · exact ⟨hs, excused_error rfl _⟩
  · rw [result_get_bind, final_get_bind]
    cases s.exportedPtr symbol.1 with
    | none => exact ⟨hs, excused_error rfl _⟩
    | some ptr => exact holds_moduleAddExport hs ⟨symbol.1, symbol.2, ptr, isDefault⟩ hsymbol

/-- **The symbols of a loop over statements or symbols**: what each of them exports is
exported at the end. -/
theorem holds_forM {p : FilePath} {P : ModuleState → Prop} {f : α → ModuleM PUnit}
    (names : α → List Ident) {as : List α}
    (hf : ∀ a ∈ as, ∀ s₀ s, P s → ModuleState.Kept env s₀ s →
      Holds (fun _ t => P t ∧ ModuleState.Kept env s₀ t ∧ ∀ name ∈ names a, t.HasExport p name)
        (fun e t => ModuleState.Kept env s₀ t ∧ e.Excused t) ((f a).result s) ((f a).final s)) :
    ∀ s₀ s, P s → ModuleState.Kept env s₀ s →
      Holds (fun _ t => P t ∧ ModuleState.Kept env s₀ t ∧
          ∀ a ∈ as, ∀ name ∈ names a, t.HasExport p name)
        (fun e t => ModuleState.Kept env s₀ t ∧ e.Excused t)
        ((as.forM f).result s) ((as.forM f).final s) := by
  induction as with
  | nil => exact fun s₀ s hP hs => ⟨hP, hs, fun _ ha => absurd ha List.not_mem_nil⟩
  | cons a as ih =>
      intro s₀ s hP hs
      have hhead := hf a List.mem_cons_self s₀ s hP hs
      show Holds _ _ ((f a >>= fun _ => as.forM f).result s) ((f a >>= fun _ => as.forM f).final s)
      rw [result_bind, final_bind]
      cases hr : (f a).result s with
      | error e =>
          rw [hr] at hhead
          exact hhead
      | ok u =>
          rw [hr] at hhead
          obtain ⟨hP₁, hs₁, hnames⟩ := hhead
          have htail := ih (fun b hb => hf b (List.mem_cons_of_mem _ hb)) _ _ hP₁ hs₁.self
          refine htail.mono (fun _ ht => ⟨ht.1, hs₁.trans ht.2.1, fun b hb name hname => ?_⟩)
            fun e ht => ⟨hs₁.trans ht.1, ht.2⟩
          rcases List.mem_cons.mp hb with rfl | hb
          · exact (hnames name hname).grows ht.2.1.grows
          · exact ht.2.2 b hb name hname

theorem holds_processExportStatement {s₀ s : ModuleState} (hs : ModuleState.Kept env s₀ s)
    {p : FilePath} (isDefault : Bool) {symbols : List (Ident × Option Ident)}
    (hsymbols : ∀ symbol ∈ symbols, symbol.1 ∈ env.exportedNames p) :
    Holds (fun _ t => ModuleState.Kept env s₀ t ∧ ∀ symbol ∈ symbols, t.HasExport p symbol.1)
      (fun e t => ModuleState.Kept env s₀ t ∧ e.Excused t)
      ((processExportStatement isDefault symbols p).result s)
      ((processExportStatement isDefault symbols p).final s) := by
  unfold processExportStatement
  dsimp only
  split
  · exact ⟨hs, excused_error rfl _⟩
  · have hforM := holds_forM (p := p) (P := fun _ => True) (f := exportSymbol p isDefault)
      (fun symbol => [symbol.1]) (fun symbol hmem t₀ t _ ht =>
        (holds_exportSymbol ht (hsymbols symbol hmem)).mono
          (fun _ hu => ⟨trivial, hu.1, fun name hname => List.mem_singleton.mp hname ▸ hu.2⟩)
          fun _ hu => hu) s₀ s trivial hs
    exact hforM.mono (fun _ ht => ⟨ht.2.1, fun symbol hmem =>
      ht.2.2 symbol hmem symbol.1 (List.mem_singleton_self _)⟩) fun _ ht => ht

theorem keepsSymbols_recordType (p : FilePath) (name : Ident) (var : Option Variable) :
    KeepsSymbols env (match var with
      | none => fail (.defaultNotVariable name)
      | some var => do
          updateModule p fun m => { m with
            defaultExportType := var.type
            defaultExportTypeDesc := TypeDescriptor.createPrimitive var.type }
          if (TypeDescriptor.createPrimitive var.type).isNone then
            fail .defaultNoDescriptor : ModuleM Unit) := by
  cases var with
  | none => exact keepsSymbols_fail rfl
  | some var =>
      refine keepsSymbols_bind (keepsSymbols_updateModule fun m => rfl) fun _ => ?_
      split
      · exact keepsSymbols_fail rfl
      · exact keepsSymbols_pure _

theorem keepsSymbols_recordDefaultExport (p : FilePath) (name : Ident) :
    KeepsSymbols env (recordDefaultExport p name) := by
  have hrecord : KeepsSymbols env
      (updateModule p (fun m => { m with defaultExportName := some name })
        >>= fun _ => get >>= fun s => (match getVariable s.scopes name with
          | none => fail (.defaultNotVariable name)
          | some var => do
              updateModule p fun m => { m with
                defaultExportType := var.type
                defaultExportTypeDesc := TypeDescriptor.createPrimitive var.type }
              if (TypeDescriptor.createPrimitive var.type).isNone then
                fail .defaultNoDescriptor : ModuleM Unit)) :=
    keepsSymbols_bind (keepsSymbols_updateModule fun m => rfl) fun _ =>
      keepsSymbols_get_bind fun s => keepsSymbols_recordType p name (getVariable s.scopes name)
  refine keepsSymbols_bind (keepsSymbols_module p) fun m => ?_
  dsimp only
  split
  · exact keepsSymbols_bind (keepsSymbols_fail rfl) fun _ => hrecord
  · exact hrecord

end Rules

end BreadLang
