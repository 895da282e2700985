import BreadLang.Core.Module

/-!
# What the pass keeps

The invariant of the registry while modules are preprocessed, and what a call of
`module_preprocess_module` leaves alone: the statements that exist, and the set of
modules that have been included.

The invariant says that no module is loading between two calls.  So
`module_compile` never finds one, and the error for a circular dependency is
never set; what stops the recursion on a cycle is its bound alone.  `Sound` is
the statement about a computation, with a proposition that says whether it may
reach the bound.
-/

namespace BreadLang

open Stateful ModuleM

/-! ### The import graph -/

namespace ModuleEnv

variable (env : ModuleEnv)

/-- The statements of a file. -/
def source (p : FilePath) : ASTStmtList :=
  (env.file p).join.getD []

/-- The nodes that the parser makes of the statements of a file. -/
def located (file : SourceFile) (stmts : ASTStmtList) : List StmtNode :=
  stmts.zipIdx.map fun (stmt, index) => ⟨⟨file, index⟩, stmt⟩

/-- A list of statements, read in a directory, has an import of the file. -/
def ImportedBy (dir : Option FilePath) (stmts : ASTStmtList) (q : FilePath) : Prop :=
  ∃ path moduleAlias isSelective symbols,
    ASTStmt.importStmt path moduleAlias isSelective symbols ∈ stmts ∧
      env.moduleResolvePath path dir = .ok q

/-- **The edges of the import graph**: a module has an import of another. -/
def Imports (p q : FilePath) : Prop :=
  env.ImportedBy (some (dirname p)) (env.source p) q

/-- The modules that a program imports, directly or through others. -/
def Reachable (stmts : ASTStmtList) (q : FilePath) : Prop :=
  ∃ p, env.ImportedBy none stmts p ∧ Relation.ReflTransGen env.Imports p q

/-- The modules that a program imports contain an import cycle. -/
def HasCycle (stmts : ASTStmtList) : Prop :=
  ∃ p, env.Reachable stmts p ∧ Relation.TransGen env.Imports p p

theorem mem_located {file : SourceFile} {stmts : ASTStmtList} {node : StmtNode}
    (h : node ∈ located file stmts) : node.loc.file = file ∧ node.stmt ∈ stmts := by
  obtain ⟨⟨stmt, index⟩, hmem, rfl⟩ := List.mem_map.mp h
  have hstmt := List.mem_zipIdx hmem
  exact ⟨rfl, hstmt.2.2 ▸ List.getElem_mem _⟩

end ModuleEnv

/-! ### The invariant -/

/-- Whether a module has been included in the program. -/
def ModuleState.included (s : ModuleState) (p : FilePath) : Bool :=
  (s.modules p).elim false (·.isIncluded)

/-- Whether a module has been compiled. -/
def ModuleState.compiled (s : ModuleState) (p : FilePath) : Bool :=
  (s.modules p).elim false (·.isCompiled)

/-- The record of one module is in order. -/
structure Module.Good (env : ModuleEnv) (heap : NodeHeap StmtNode) (p : FilePath) (m : Module) :
    Prop where
  notLoading : m.isLoading = false
  compiled : m.isPreprocessed = true → m.isCompiled = true
  preprocessed : m.isIncluded = true → m.isPreprocessed = true
  ast : m.isCompiled = true → m.isIncluded = false →
    ∃ list nodes, m.ast = some list ∧ heap.Represents list nodes ∧
      nodes.map (·.2) = ModuleEnv.located (.module p) (env.source p)

/-- **The registry is in order.** -/
def ModuleState.Good (env : ModuleEnv) (s : ModuleState) : Prop :=
  ∀ p m, s.modules p = some m → m.Good env s.heap p

/-- What preprocessing leaves alone. -/
structure ModuleState.Extends (s t : ModuleState) : Prop where
  heap : s.heap.Extends t.heap
  included : ∀ p, t.included p = s.included p
  compiled : ∀ p, s.compiled p = true → t.compiled p = true

theorem ModuleState.Extends.refl (s : ModuleState) : s.Extends s :=
  ⟨.refl s.heap, fun _ => rfl, fun _ h => h⟩

theorem ModuleState.Extends.trans {s t u : ModuleState} (h : s.Extends t) (h' : t.Extends u) :
    s.Extends u where
  heap := h.heap.trans h'.heap
  included p := by rw [h'.included, h.included]
  compiled p hp := h'.compiled p (h.compiled p hp)

theorem Module.Good.extends {env : ModuleEnv} {h h' : NodeHeap StmtNode} {p : FilePath}
    {m : Module} (hm : m.Good env h p) (hx : h.Extends h') : m.Good env h' p where
  notLoading := hm.notLoading
  compiled := hm.compiled
  preprocessed := hm.preprocessed
  ast hc hi := by
    obtain ⟨list, nodes, hast, hr, hnodes⟩ := hm.ast hc hi
    exact ⟨list, nodes, hast, hr.extends hx, hnodes⟩

/-- The registry is in order, in a state that extends an earlier one. -/
structure ModuleState.Inv (env : ModuleEnv) (s₀ s : ModuleState) : Prop where
  good : s.Good env
  ext : s₀.Extends s

section Steps

variable {env : ModuleEnv} {s₀ s t : ModuleState} {p : FilePath} {m m' : Module}

/-- A change of the tables of symbols. -/
theorem ModuleState.Inv.of_eq (h : ModuleState.Inv env s₀ s) (hmodules : t.modules = s.modules)
    (hheap : t.heap = s.heap) : ModuleState.Inv env s₀ t where
  good p m hm := by
    rw [hmodules] at hm
    rw [hheap]
    exact h.good p m hm
  ext := h.ext.trans ⟨hheap ▸ .refl _, fun p => by rw [included, included, hmodules],
    fun p hp => by rwa [compiled, hmodules]⟩

/-- A change of one record, and of the heap where nothing was allocated. -/
theorem ModuleState.Inv.setModule (h : ModuleState.Inv env s₀ s) {heap : NodeHeap StmtNode}
    (hheap : s.heap.Extends heap) (hm' : m'.Good env heap p)
    (hincluded : m'.isIncluded = s.included p)
    (hcompiled : s.compiled p = true → m'.isCompiled = true) :
    ModuleState.Inv env s₀ ({ s with heap }.setModule p m') where
  good q n hn := by
    by_cases heq : q = p
    · subst heq
      rw [modules_setModule_self] at hn
      obtain rfl := Option.some.inj hn
      exact hm'
    · rw [modules_setModule_of_ne _ _ heq] at hn
      exact (h.good q n hn).extends hheap
  ext := h.ext.trans {
    heap := hheap
    included := fun q => by
      by_cases heq : q = p
      · subst heq
        rw [included, modules_setModule_self]
        exact hincluded
      · rw [included, modules_setModule_of_ne _ _ heq]
        rfl
    compiled := fun q hq => by
      by_cases heq : q = p
      · subst heq
        rw [compiled, modules_setModule_self]
        exact hcompiled hq
      · rw [compiled, modules_setModule_of_ne _ _ heq]
        exact hq }

/-- A change of one record that keeps its flags and its statements. -/
theorem ModuleState.Inv.setModule_of_eq (h : ModuleState.Inv env s₀ s)
    (hm : s.modules p = some m) (hast : m'.ast = m.ast) (hcompiled : m'.isCompiled = m.isCompiled)
    (hloading : m'.isLoading = m.isLoading) (hpre : m'.isPreprocessed = true → m.isCompiled = true)
    (hmono : m.isPreprocessed = true → m'.isPreprocessed = true)
    (hincluded : m'.isIncluded = m.isIncluded) : ModuleState.Inv env s₀ (s.setModule p m') := by
  have hgood := h.good p m hm
  refine h.setModule (.refl s.heap) ⟨?_, ?_, ?_, ?_⟩ ?_ ?_
  · rw [hloading, hgood.notLoading]
  · rwa [hcompiled]
  · rw [hincluded]
    exact fun hi => hmono (hgood.preprocessed hi)
  · rw [hcompiled, hincluded, hast]
    exact hgood.ast
  · rw [hincluded, included, hm]
    rfl
  · rw [hcompiled, compiled, hm]
    exact id

end Steps

/-! ### Sound computations -/

/-- The failures that preprocessing may end with: not the error for a circular
dependency, and the bound of the recursion only where it may be reached. -/
def ModuleFail.Acceptable (mayDiverge : Prop) : ModuleFail → Prop
  | .error (.circularDependency _) => False
  | .diverges => mayDiverge
  | _ => True

/-- **A computation keeps the registry in order**, and fails acceptably if it fails. -/
def Sound (env : ModuleEnv) (mayDiverge : Prop) {α : Type} (m : ModuleM α) : Prop :=
  ∀ s₀, Triple (ModuleState.Inv env s₀) m (fun _ => ModuleState.Inv env s₀)
    (fun e s => ModuleState.Inv env s₀ s ∧ e.Acceptable mayDiverge)

section Rules

variable {env : ModuleEnv} {D : Prop} {α β : Type}

theorem sound_pure (a : α) : Sound env D (pure a : ModuleM α) :=
  fun _ => triple_pure fun _ h => h

theorem sound_throw {e : ModuleFail} (h : e.Acceptable D) :
    Sound env D (throw e : ModuleM α) :=
  fun _ => triple_throw fun _ hs => ⟨hs, h⟩

theorem sound_bind {m : ModuleM α} {f : α → ModuleM β} (hm : Sound env D m)
    (hf : ∀ a, Sound env D (f a)) : Sound env D (m >>= f) :=
  fun s₀ => triple_bind (hm s₀) fun a => hf a s₀

theorem sound_get_bind {f : ModuleState → ModuleM β} (hf : ∀ s, Sound env D (f s)) :
    Sound env D (get >>= f : ModuleM β) :=
  fun s₀ s hs => hf s s₀ s hs

theorem sound_forM {f : α → ModuleM PUnit} {as : List α} (hf : ∀ a ∈ as, Sound env D (f a)) :
    Sound env D (as.forM f) := by
  induction as with
  | nil => exact sound_pure _
  | cons a as ih =>
      exact sound_bind (hf a List.mem_cons_self) fun _ =>
        ih fun b hb => hf b (List.mem_cons_of_mem _ hb)

/-- A change of the state that keeps the registry and the heap. -/
theorem sound_modify {f : ModuleState → ModuleState} (hmodules : ∀ s, (f s).modules = s.modules)
    (hheap : ∀ s, (f s).heap = s.heap) : Sound env D (modify f : ModuleM Unit) :=
  fun _ => triple_modify fun s hs => hs.of_eq (hmodules s) (hheap s)

theorem sound_module (p : FilePath) : Sound env D (ModuleM.module p) := by
  refine sound_get_bind fun s => ?_
  cases s.modules p with
  | none => exact sound_throw trivial
  | some m => exact sound_pure m

theorem sound_ofExec (x : Exec α) : Sound env D (ofExec x) := by
  cases x with
  | ok a => exact sound_pure a
  | error e => exact sound_throw trivial

/-- A change of a record that keeps its flags and its statements. -/
theorem sound_updateModule {p : FilePath} {f : Module → Module}
    (hf : ∀ m, (f m).ast = m.ast ∧ (f m).isCompiled = m.isCompiled ∧
      (f m).isLoading = m.isLoading ∧ (f m).isPreprocessed = m.isPreprocessed ∧
      (f m).isIncluded = m.isIncluded) : Sound env D (updateModule p f) := by
  intro s₀ s hs
  show Holds _ _ ((updateModule p f).result s) ((updateModule p f).final s)
  unfold updateModule ModuleM.module
  rw [bind_assoc, result_get_bind, final_get_bind]
  cases hm : s.modules p with
  | none => exact ⟨hs, trivial⟩
  | some m =>
      obtain ⟨hast, hcompiled, hloading, hpre, hincluded⟩ := hf m
      exact hs.setModule_of_eq hm hast hcompiled hloading
        (fun h => (hs.good p m hm).compiled (hpre ▸ h)) (fun h => hpre.trans h) hincluded

/-! ### Symbols and exports -/

theorem sound_registerFunction (fn : Function) : Sound env D (registerFunction fn) := by
  refine sound_get_bind fun s => ?_
  dsimp only
  split
  · exact sound_pure false
  · exact sound_bind (sound_modify (fun _ => rfl) fun _ => rfl) fun _ => sound_pure true

theorem sound_moduleRegisterQualifiedSymbol (moduleName symbolName : Ident) (ptr : SymbolPtr) :
    Sound env D (moduleRegisterQualifiedSymbol moduleName symbolName ptr) := by
  unfold moduleRegisterQualifiedSymbol
  split
  · exact sound_throw trivial
  split
  · exact sound_throw trivial
  refine sound_get_bind fun s => ?_
  split
  · exact sound_throw trivial
  · exact sound_modify (fun _ => rfl) fun _ => rfl

theorem sound_moduleAddExport (p : FilePath) (symbol : ModuleSymbol) :
    Sound env D (moduleAddExport p symbol) := by
  refine sound_bind (sound_module p) fun m => ?_
  split
  · exact sound_throw trivial
  split
  · exact sound_throw trivial
  · exact sound_updateModule fun m => ⟨rfl, rfl, rfl, rfl, rfl⟩

theorem sound_exportSymbol (p : FilePath) (isDefault : Bool) (symbol : Ident × Option Ident) :
    Sound env D (exportSymbol p isDefault symbol) := by
  unfold exportSymbol
  dsimp only
  split
  · exact fun s₀ => triple_throw fun _ hs => ⟨hs, trivial⟩
  · refine sound_get_bind fun s => ?_
    cases s.exportedPtr symbol.1 with
    | none => exact sound_throw trivial
    | some ptr => exact sound_moduleAddExport p _

theorem sound_processExportStatement (isDefault : Bool) (symbols : List (Ident × Option Ident))
    (p : FilePath) : Sound env D (processExportStatement isDefault symbols p) := by
  have hforM : Sound env D (symbols.forM (exportSymbol p isDefault)) :=
    sound_forM fun symbol _ => sound_exportSymbol p isDefault symbol
  unfold processExportStatement
  dsimp only
  split
  · exact sound_bind (sound_throw trivial) fun _ => hforM
  · exact hforM

/-- The type of a default export is recorded. -/
theorem sound_recordType (p : FilePath) (name : Ident) (var : Option Variable) :
    Sound env D (match var with
      | none => fail (.defaultNotVariable name)
      | some var => do
          updateModule p fun m => { m with
            defaultExportType := var.type
            defaultExportTypeDesc := TypeDescriptor.createPrimitive var.type }
          if (TypeDescriptor.createPrimitive var.type).isNone then
            fail .defaultNoDescriptor : ModuleM Unit) := by
  cases var with
  | none => exact sound_throw trivial
  | some var =>
      refine sound_bind (sound_updateModule fun m => ⟨rfl, rfl, rfl, rfl, rfl⟩) fun _ => ?_
      split
      · exact sound_throw trivial
      · exact sound_pure _

theorem sound_recordDefaultExport (p : FilePath) (name : Ident) :
    Sound env D (recordDefaultExport p name) := by
  have hrecord : Sound env D (updateModule p (fun m => { m with defaultExportName := some name })
      >>= fun _ => get >>= fun s => (match getVariable s.scopes name with
        | none => fail (.defaultNotVariable name)
        | some var => do
            updateModule p fun m => { m with
              defaultExportType := var.type
              defaultExportTypeDesc := TypeDescriptor.createPrimitive var.type }
            if (TypeDescriptor.createPrimitive var.type).isNone then
              fail .defaultNoDescriptor : ModuleM Unit)) :=
    sound_bind (sound_updateModule fun m => ⟨rfl, rfl, rfl, rfl, rfl⟩) fun _ =>
      sound_get_bind fun s => sound_recordType p name (getVariable s.scopes name)
  refine sound_bind (sound_module p) fun m => ?_
  dsimp only
  split
  · exact sound_bind (sound_throw trivial) fun _ => hrecord
  · exact hrecord

/-! ### Loading and compiling -/

theorem sound_ofResolved (r : Except ModuleError FilePath)
    (h : ∀ e, r = .error e → ModuleFail.Acceptable D (.error e)) :
    Sound env D (ofResolved r) := by
  cases r with
  | ok p => exact sound_pure p
  | error e => exact sound_throw (h e rfl)

/-- Path resolution fails with errors of its own. -/
theorem acceptable_of_resolve {path : FilePath} {dir : Option FilePath} {e : ModuleError}
    (h : env.moduleResolvePath path dir = .error e) : ModuleFail.Acceptable D (.error e) := by
  have hsearch : ∀ e, env.resolveInSearchPaths path = .error e →
      ModuleFail.Acceptable D (.error e) := by
    intro e he
    unfold ModuleEnv.resolveInSearchPaths at he
    cases hr : env.trySearchPaths path env.searchPaths with
    | some resolved =>
        rw [hr] at he
        cases he
    | none =>
        rw [hr] at he
        cases he
        exact trivial
  unfold ModuleEnv.moduleResolvePath at h
  split at h
  · split at h <;> cases h
    exact trivial
  · cases dir with
    | none => exact hsearch e h
    | some dir =>
        dsimp only at h
        split at h
        · cases h
          exact trivial
        · split at h
          · cases h
          · exact hsearch e h

theorem good_fresh (heap : NodeHeap StmtNode) (p path : FilePath) :
    (Module.fresh p path).Good env heap p :=
  ⟨rfl, fun h => h, fun h => h, fun h => absurd h Bool.false_ne_true⟩

theorem inv_load {s₀ s : ModuleState} (hs : ModuleState.Inv env s₀ s) (p path : FilePath) :
    ModuleState.Inv env s₀ (s.load p path) := by
  unfold ModuleState.load
  cases hm : s.modules p with
  | some m => exact hs
  | none =>
      refine hs.setModule (.refl s.heap) (good_fresh ..) ?_ fun hc => ?_
      · rw [ModuleState.included, hm]
        rfl
      · rw [ModuleState.compiled, hm] at hc
        cases hc

theorem sound_moduleLoad (path : FilePath) (dir : Option FilePath) :
    Sound env D (moduleLoad env path dir) :=
  sound_bind (sound_ofResolved _ fun _ he => acceptable_of_resolve he) fun p =>
    sound_bind (fun _ => triple_modify fun _ hs => inv_load hs p path) fun _ => sound_pure p

/-- The module that is loaded is the one that the path means. -/
theorem result_moduleLoad {path : FilePath} {dir : Option FilePath} {s : ModuleState}
    {p : FilePath} (h : (moduleLoad env path dir).result s = .ok p) :
    env.moduleResolvePath path dir = .ok p ∧ (moduleLoad env path dir).final s = s.load p path := by
  unfold moduleLoad at h ⊢
  cases hr : env.moduleResolvePath path dir with
  | error e =>
      rw [hr] at h
      cases h
  | ok q =>
      rw [hr] at h
      cases h
      exact ⟨rfl, rfl⟩

theorem run_appendStmt {s : ModuleState} {list : LinkedList} {nodes : List (ℕ × StmtNode)}
    {a : ℕ} {v : StmtNode} {next : Option ℕ} (hr : s.heap.Represents list nodes)
    (ha : s.heap.cells a = some ⟨v, next⟩) (hnew : a ∉ nodes.map Prod.fst) :
    ∃ heap list', (appendStmt list a).result s = .ok list' ∧
      (appendStmt list a).final s = { s with heap } ∧
      heap.Represents list' (nodes ++ [(a, v)]) ∧ heap.size = s.heap.size ∧
      ∀ b, b ≠ a → b ∉ nodes.map Prod.fst → heap.cells b = s.heap.cells b := by
  obtain ⟨heap, list', happ, hr', hsize, hframe⟩ := NodeHeap.represents_append hr ha hnew
  refine ⟨heap, list', ?_, ?_, hr', hsize, hframe⟩
  · unfold appendStmt
    rw [result_get_bind, happ]
    rfl
  · unfold appendStmt
    rw [final_get_bind, happ]
    rfl

/-- A step of `buildStmtList`. -/
theorem run_buildStep {s : ModuleState} {list : LinkedList} {nodes : List (ℕ × StmtNode)}
    (hr : s.heap.Represents list nodes) (v : StmtNode) :
    ∃ heap list', (newStmt v >>= appendStmt list).result s = .ok list' ∧
      (newStmt v >>= appendStmt list).final s = { s with heap } ∧
      heap.Represents list' (nodes ++ [(s.heap.size, v)]) ∧ heap.size = s.heap.size + 1 ∧
      ∀ b, b < s.heap.size → b ∉ nodes.map Prod.fst → heap.cells b = s.heap.cells b := by
  have hr' : (s.heap.alloc v).Represents list nodes := hr.extends (NodeHeap.extends_alloc ..)
  have hnew : s.heap.size ∉ nodes.map Prod.fst := by
    intro hmem
    obtain ⟨x, hx, heq⟩ := List.mem_map.mp hmem
    exact (NodeHeap.lt_size_of_allocated (hr.chain.allocated x hx)).ne heq
  obtain ⟨heap, list', hresult, hfinal, hrep, hsize, hframe⟩ :=
    run_appendStmt (s := { s with heap := s.heap.alloc v }) hr' (NodeHeap.cells_alloc_self ..) hnew
  refine ⟨heap, list', hresult, hfinal, hrep, hsize, fun b hb hmem => ?_⟩
  rw [hframe b hb.ne hmem]
  exact NodeHeap.cells_alloc hb

theorem run_buildStmtList_from (file : SourceFile) (stmts : List (ASTStmt × ℕ)) :
    ∀ {s : ModuleState} {list : LinkedList} {nodes : List (ℕ × StmtNode)},
      s.heap.Represents list nodes →
      ∃ heap list' new,
        (stmts.foldlM (fun list (stmt, index) => do
          let a ← newStmt ⟨⟨file, index⟩, stmt⟩
          appendStmt list a) list).result s = .ok list' ∧
        (stmts.foldlM (fun list (stmt, index) => do
          let a ← newStmt ⟨⟨file, index⟩, stmt⟩
          appendStmt list a) list).final s = { s with heap } ∧
        heap.Represents list' (nodes ++ new) ∧
        new.map (·.2) = stmts.map (fun (stmt, index) => ⟨⟨file, index⟩, stmt⟩) ∧
        s.heap.size ≤ heap.size ∧
        ∀ b, b < s.heap.size → b ∉ nodes.map Prod.fst → heap.cells b = s.heap.cells b := by
  induction stmts with
  | nil =>
      intro s list nodes hr
      exact ⟨s.heap, list, [], rfl, rfl, by rwa [List.append_nil], rfl, le_rfl, fun b _ _ => rfl⟩
  | cons x stmts ih =>
      intro s list nodes hr
      obtain ⟨heap₁, list₁, hresult₁, hfinal₁, hr₁, hsize₁, hframe₁⟩ :=
        run_buildStep hr ⟨⟨file, x.2⟩, x.1⟩
      obtain ⟨heap, list', new, hresult, hfinal, hrep, hnew, hsize, hframe⟩ :=
        ih (s := { s with heap := heap₁ }) hr₁
      have hle : s.heap.size ≤ heap₁.size := by omega
      refine ⟨heap, list', (s.heap.size, ⟨⟨file, x.2⟩, x.1⟩) :: new, ?_, ?_, ?_, ?_,
        hle.trans hsize, ?_⟩
      · rw [List.foldlM_cons]
        refine result_bind_eq_ok.mpr ⟨list₁, hresult₁, ?_⟩
        rw [hfinal₁]
        exact hresult
      · rw [List.foldlM_cons, final_bind_of_ok hresult₁, hfinal₁, hfinal]
      · rwa [List.append_assoc] at hrep
      · rw [List.map_cons, List.map_cons, hnew]
      · intro b hb hmem
        rw [← hframe₁ b hb hmem]
        refine hframe b (hb.trans_le hle) ?_
        simpa [hb.ne] using hmem

/-- **The parser's list of statements.** -/
theorem run_buildStmtList (file : SourceFile) (stmts : ASTStmtList) (s : ModuleState) :
    ∃ heap list nodes, (buildStmtList file stmts).result s = .ok list ∧
      (buildStmtList file stmts).final s = { s with heap } ∧
      heap.Represents list nodes ∧ nodes.map (·.2) = ModuleEnv.located file stmts ∧
      s.heap.Extends heap := by
  obtain ⟨heap, list, nodes, hresult, hfinal, hr, hnodes, hsize, hframe⟩ :=
    run_buildStmtList_from file stmts.zipIdx (NodeHeap.represents_empty s.heap)
  exact ⟨heap, list, nodes, hresult, hfinal, hr, hnodes,
    fun a ha => hframe a ha List.not_mem_nil, hsize⟩

theorem run_module {s : ModuleState} {p : FilePath} {m : Module} (h : s.modules p = some m) :
    (ModuleM.module p).result s = .ok m ∧ (ModuleM.module p).final s = s := by
  unfold ModuleM.module
  rw [result_get_bind, final_get_bind, h]
  exact ⟨rfl, rfl⟩

theorem run_updateModule {s : ModuleState} {p : FilePath} {m : Module}
    (h : s.modules p = some m) (f : Module → Module) :
    (updateModule p f).result s = .ok () ∧ (updateModule p f).final s = s.setModule p (f m) := by
  unfold updateModule
  have hrun := run_module h
  rw [result_bind, final_bind, hrun.1, hrun.2]
  exact ⟨rfl, rfl⟩

/-- A computation that starts by reading the record of a module. -/
theorem triple_module_bind {s₀ : ModuleState} {p : FilePath} {f : Module → ModuleM β}
    {Q : β → ModuleState → Prop}
    (hf : ∀ s m, ModuleState.Inv env s₀ s → s.modules p = some m →
      Holds Q (fun e t => ModuleState.Inv env s₀ t ∧ e.Acceptable D)
        ((f m).result s) ((f m).final s)) :
    Triple (ModuleState.Inv env s₀) (ModuleM.module p >>= f) Q
      (fun e t => ModuleState.Inv env s₀ t ∧ e.Acceptable D) := by
  intro s hs
  cases hm : s.modules p with
  | none =>
      unfold ModuleM.module
      rw [bind_assoc, result_get_bind, final_get_bind, hm]
      exact ⟨hs, trivial⟩
  | some m =>
      have hrun := run_module hm
      rw [result_bind, final_bind, hrun.1, hrun.2]
      exact hf s m hs hm

/-- `module_compile` keeps the registry in order.  The mark of a module that is being
loaded is gone at the end. -/
theorem triple_moduleCompile (s₀ : ModuleState) (p : FilePath) :
    Triple (ModuleState.Inv env s₀) (moduleCompile env p)
      (fun _ s => ModuleState.Inv env s₀ s ∧ s.compiled p = true)
      (fun e s => ModuleState.Inv env s₀ s ∧ e.Acceptable D) := by
  refine triple_module_bind fun s m hs hm => ?_
  have hgood := hs.good p m hm
  cases hc : m.isCompiled with
  | true =>
      refine ⟨hs, ?_⟩
      show (s.modules p).elim false _ = true
      rw [hm]
      exact hc
  | false =>
      rw [hgood.notLoading]
      simp only [Bool.false_eq_true, if_false]
      have hmark := run_updateModule hm fun m => { m with isLoading := true }
      rw [result_bind, final_bind, hmark.1, hmark.2]
      unfold compileFile
      cases hfile : (env.file p).join with
      | none =>
          have hunmark := run_updateModule (ModuleState.modules_setModule_self s p { m with isLoading := true })
            fun m => { m with isLoading := false }
          dsimp only
          rw [result_bind, final_bind, hunmark.1, hunmark.2, ModuleState.setModule_setModule]
          refine ⟨?_, trivial⟩
          show ModuleState.Inv env s₀ (s.setModule p { m with isLoading := false })
          rwa [show { m with isLoading := false } = m by rw [← hgood.notLoading], ModuleState.setModule_self hm]
      | some stmts =>
          obtain ⟨heap, list, nodes, hresult, hfinal, hr, hnodes, hext⟩ :=
            run_buildStmtList (.module p) stmts (s.setModule p { m with isLoading := true })
          dsimp only
          rw [result_bind, final_bind, hresult, hfinal]
          have hupdate := run_updateModule (s := { s.setModule p { m with isLoading := true } with
              heap }) (ModuleState.modules_setModule_self s p { m with isLoading := true })
            fun m => { m with ast := some list, isCompiled := true, isLoading := false }
          dsimp only
          rw [hupdate.1, hupdate.2]
          have hincluded : m.isIncluded = false := by
            by_contra hi
            have hpre := hgood.compiled (hgood.preprocessed (Bool.not_eq_false _ ▸ hi))
            rw [hc] at hpre
            cases hpre
          show ModuleState.Inv env s₀ (ModuleState.setModule { s.setModule p _ with heap } p _) ∧
            ModuleState.compiled (ModuleState.setModule { s.setModule p _ with heap } p _) p = true
          rw [show { s.setModule p { m with isLoading := true } with heap } =
            ModuleState.setModule { s with heap } p { m with isLoading := true } from rfl,
            ModuleState.setModule_setModule]
          refine ⟨hs.setModule hext ⟨rfl, fun _ => rfl, ?_, ?_⟩ ?_ fun _ => rfl, ?_⟩
          · exact fun hi => absurd (hincluded.symm.trans hi) Bool.false_ne_true
          · refine fun _ _ => ⟨list, nodes, rfl, hr, ?_⟩
            rw [hnodes, ModuleEnv.source, hfile]
            rfl
          · rw [ModuleState.included, hm]
            rfl
          · rw [ModuleState.compiled, ModuleState.modules_setModule_self]
            rfl

theorem sound_moduleCompile (p : FilePath) : Sound env D (moduleCompile env p) :=
  fun s₀ => triple_conseq (triple_moduleCompile s₀ p) (fun _ h => h) (fun _ _ h => h.1)
    fun _ _ h => h

/-! ### Preprocessing -/

theorem result_observe (call : ImportCall) (m : ModuleM Unit) (s : ModuleState) :
    (observe call m).result s = m.result s := rfl

theorem final_observe (call : ImportCall) (m : ModuleM Unit) (s : ModuleState) :
    (observe call m).final s =
      { m.final s with
        imports := { call with succeeded := (m.result s).isOk } :: (m.final s).imports } := rfl

theorem sound_observe {call : ImportCall} {m : ModuleM Unit} (hm : Sound env D m) :
    Sound env D (observe call m) := by
  intro s₀ s hs
  have hholds := hm s₀ s hs
  rw [result_observe, final_observe]
  cases hr : m.result s with
  | ok a =>
      rw [hr] at hholds
      exact hholds.of_eq rfl rfl
  | error e =>
      rw [hr] at hholds
      exact ⟨hholds.1.of_eq rfl rfl, hholds.2⟩

theorem sound_importSymbol (p : FilePath) (symbol : Ident × Option Ident) :
    Sound env D (importSymbol p symbol) := by
  refine sound_bind (sound_module p) fun m => ?_
  cases moduleFindExport m.exports symbol.1 with
  | none => exact sound_throw trivial
  | some exported => exact sound_moduleRegisterQualifiedSymbol _ _ _

theorem sound_importSymbols (p : FilePath) (moduleAlias : Option Ident) (isSelective : Bool)
    (symbols : List (Ident × Option Ident)) :
    Sound env D (importSymbols p moduleAlias isSelective symbols) := by
  cases isSelective with
  | true => exact sound_forM fun symbol _ => sound_importSymbol p symbol
  | false =>
      exact sound_bind (sound_module p) fun m => sound_forM fun exported _ =>
        sound_moduleRegisterQualifiedSymbol _ _ _

theorem sound_processImportStatement (path : FilePath) (moduleAlias : Option Ident)
    (isSelective : Bool) (symbols : List (Ident × Option Ident)) (dir : Option FilePath) :
    Sound env D (processImportStatement env path moduleAlias isSelective symbols dir) :=
  sound_bind (sound_moduleLoad path dir) fun p =>
    sound_bind (sound_moduleCompile p) fun _ => sound_bind (sound_module p) fun _ =>
      sound_get_bind fun _ => sound_observe (sound_importSymbols p moduleAlias isSelective symbols)

/-- A computation that starts by loading a module. -/
theorem sound_moduleLoad_bind {path : FilePath} {dir : Option FilePath} {f : FilePath → ModuleM β}
    (hf : ∀ q, env.moduleResolvePath path dir = .ok q → Sound env D (f q)) :
    Sound env D (moduleLoad env path dir >>= f) := by
  unfold moduleLoad
  cases hr : env.moduleResolvePath path dir with
  | error e => exact sound_throw (acceptable_of_resolve hr)
  | ok q =>
      have hload : Sound env D (modify (·.load q path) : ModuleM Unit) :=
        fun _ => triple_modify fun _ hs => inv_load hs q path
      show Sound env D ((modify (·.load q path) : ModuleM Unit) >>= fun _ => f q)
      exact sound_bind hload fun _ => hf q hr

section Recursion

variable {casts : NumericCasts} {recurse : FilePath → ModuleM Unit} {p : FilePath}

/-- One statement of a module, when the recursion is sound on what it imports. -/
theorem sound_preprocessStmt (h : ∀ q, env.Imports p q → Sound env D (recurse q))
    {stmt : ASTStmt} (hstmt : stmt ∈ env.source p) :
    Sound env D (preprocessStmt env casts recurse p stmt) := by
  cases stmt with
  | importStmt path moduleAlias isSelective symbols =>
      refine sound_bind (sound_processImportStatement _ _ _ _ _) fun _ => sound_moduleLoad_bind ?_
      exact fun q hq => h q ⟨path, moduleAlias, isSelective, symbols, hstmt, hq⟩
  | exportStmt isDefault symbols =>
      refine sound_bind (sound_processExportStatement _ _ _) fun _ => ?_
      cases isDefault with
      | false => exact sound_pure _
      | true =>
          cases symbols with
          | nil => exact sound_pure _
          | cons symbol symbols => exact sound_recordDefaultExport p symbol.1
  | funcDecl decl =>
      refine sound_bind (sound_registerFunction _) fun registered => ?_
      split
      · exact sound_throw trivial
      · exact sound_pure _
  | varDecl name type typeDesc init isConst =>
      refine sound_get_bind fun s => sound_bind (sound_ofExec _) fun r => ?_
      refine sound_bind (sound_modify (fun _ => rfl) fun _ => rfl) fun _ => ?_
      split
      · exact sound_throw trivial
      · exact sound_pure _
  | _ => exact sound_pure _

theorem exists_of_compiled {s : ModuleState} (h : s.compiled p = true) :
    ∃ m, s.modules p = some m ∧ m.isCompiled = true := by
  unfold ModuleState.compiled at h
  cases hm : s.modules p with
  | none =>
      rw [hm] at h
      cases h
  | some m =>
      rw [hm] at h
      exact ⟨m, rfl, h⟩

/-- The statements of a module that has been compiled and not been included. -/
theorem ModuleState.Inv.represents {s₀ s : ModuleState} {m : Module}
    (hs : ModuleState.Inv env s₀ s) (hm : s.modules p = some m) (hc : m.isCompiled = true)
    (hi : s.included p = false) :
    ∃ list nodes, m.ast = some list ∧ s.heap.Represents list nodes ∧
      nodes.map (·.2) = ModuleEnv.located (.module p) (env.source p) :=
  (hs.good p m hm).ast hc (by rwa [included, hm] at hi)

/-- What holds relative to a state holds relative to an earlier one. -/
theorem ModuleState.Inv.holds {s₀ s t : ModuleState} (hs : ModuleState.Inv env s₀ s)
    {r : Except ModuleFail α} (h : Holds (fun _ => ModuleState.Inv env s)
      (fun e t => ModuleState.Inv env s t ∧ e.Acceptable D) r t) :
    Holds (fun _ => ModuleState.Inv env s₀)
      (fun e t => ModuleState.Inv env s₀ t ∧ e.Acceptable D) r t := by
  cases r with
  | ok a => exact ⟨h.good, hs.ext.trans h.ext⟩
  | error e => exact ⟨⟨h.1.good, hs.ext.trans h.1.ext⟩, h.2⟩

theorem run_readList {s : ModuleState} {list : LinkedList} {nodes : List (ℕ × StmtNode)}
    (hr : s.heap.Represents list nodes) :
    (readList list).result s = .ok nodes ∧ (readList list).final s = s := by
  unfold readList
  rw [result_get_bind, final_get_bind, hr.nodes_eq]
  exact ⟨rfl, rfl⟩

/-- The statements of a module are preprocessed, and the module is marked. -/
theorem holds_preprocessStmtList (h : ∀ q, env.Imports p q → Sound env D (recurse q))
    {s₀ s : ModuleState} (hs : ModuleState.Inv env s₀ s) {list : LinkedList}
    {nodes : List (ℕ × StmtNode)} (hr : s.heap.Represents list nodes)
    (hnodes : nodes.map (·.2) = ModuleEnv.located (.module p) (env.source p))
    (hc : s.compiled p = true) :
    Triple (· = s) (preprocessStmtList env casts recurse list p >>= fun _ =>
        updateModule p fun m => { m with isPreprocessed := true })
      (fun _ => ModuleState.Inv env s₀)
      (fun e t => ModuleState.Inv env s₀ t ∧ e.Acceptable D) := by
  rintro t rfl
  have hread := run_readList hr
  have hforM : Sound env D
      (nodes.forM fun node => preprocessStmt env casts recurse p node.2.stmt) := by
    refine sound_forM fun node hnode => sound_preprocessStmt h ?_
    have hlocated : node.2 ∈ ModuleEnv.located (.module p) (env.source p) :=
      hnodes ▸ List.mem_map_of_mem hnode
    exact (ModuleEnv.mem_located hlocated).2
  have hholds := hforM t t ⟨hs.good, .refl t⟩
  have hlist : (preprocessStmtList env casts recurse list p).result t =
        (nodes.forM fun node => preprocessStmt env casts recurse p node.2.stmt).result t ∧
      (preprocessStmtList env casts recurse list p).final t =
        (nodes.forM fun node => preprocessStmt env casts recurse p node.2.stmt).final t := by
    unfold preprocessStmtList
    rw [result_bind, final_bind, hread.1, hread.2]
    exact ⟨rfl, rfl⟩
  rw [result_bind, final_bind, hlist.1, hlist.2]
  cases hresult : (nodes.forM fun node =>
      preprocessStmt env casts recurse p node.2.stmt).result t with
  | error e =>
      rw [hresult] at hholds
      exact hs.holds hholds
  | ok a =>
      rw [hresult] at hholds
      have hinv : ModuleState.Inv env s₀ _ := ⟨hholds.good, hs.ext.trans hholds.ext⟩
      obtain ⟨m, hm, hcompiled⟩ := exists_of_compiled (hholds.ext.compiled p hc)
      have hupdate := run_updateModule hm fun m => { m with isPreprocessed := true }
      dsimp only
      rw [hupdate.1, hupdate.2]
      exact hinv.setModule_of_eq hm rfl rfl rfl (fun _ => hcompiled) (fun _ => rfl) rfl

/-- **A module, when the recursion is sound on what it imports.** -/
theorem sound_preprocessModule_succ {n : ℕ}
    (h : ∀ q, env.Imports p q → Sound env D (preprocessModule env casts n q)) :
    Sound env D (preprocessModule env casts (n + 1) p) := by
  intro s₀
  refine triple_module_bind fun s m hs hm => ?_
  cases hpre : m.isPreprocessed with
  | true => exact hs
  | false =>
      simp only [Bool.false_eq_true, if_false]
      have hnotIncluded : s.included p = false := by
        rw [ModuleState.included, hm]
        by_contra hi
        have hp := (hs.good p m hm).preprocessed (Bool.not_eq_false _ ▸ hi)
        rw [hpre] at hp
        cases hp
      refine hs.holds ?_
      -- what is known after the compilation: the module is compiled, and still not included
      have hcompile := triple_moduleCompile (D := D) s p s ⟨hs.good, .refl s⟩
      rw [result_bind, final_bind]
      cases hr : (moduleCompile env p).result s with
      | error e =>
          rw [hr] at hcompile
          exact hcompile
      | ok u =>
          rw [hr] at hcompile
          obtain ⟨hinv, hcompiled⟩ := hcompile
          obtain ⟨m', hm', hc⟩ := exists_of_compiled hcompiled
          obtain ⟨list, nodes, hast, hr, hnodes⟩ :=
            hinv.represents hm' hc ((hinv.ext.included p).trans hnotIncluded)
          have hrun := run_module hm'
          dsimp only
          rw [result_bind, final_bind, hrun.1, hrun.2]
          dsimp only
          rw [hast]
          exact holds_preprocessStmtList h hinv hr hnodes hcompiled _ rfl

/-- `module_preprocess_module` keeps the registry in order, and never sets the error for
a circular dependency. -/
theorem sound_preprocessModule (n : ℕ) (p : FilePath) :
    Sound env True (preprocessModule env casts n p) := by
  induction n generalizing p with
  | zero => exact sound_throw trivial
  | succ n ih => exact sound_preprocessModule_succ fun q _ => ih q

end Recursion

end Rules

end BreadLang
