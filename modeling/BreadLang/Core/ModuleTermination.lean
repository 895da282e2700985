import BreadLang.Core.ModuleProgram
import BreadLang.Library.Acyclic

/-!
# Cyclic imports

`module_compile` refuses a module that is being loaded, with an error for a circular
dependency.  It takes the mark off when it has parsed the file, before the imports of
the module are looked at, so no module is marked when it is entered again.

On an import graph without a cycle the recursion of `module_preprocess_module` comes to
an end.  On one with a cycle it does not report it: either it goes on without end, or
something else stops it before.  So the pass does what the check is for exactly when
there is nothing to check.
-/

namespace BreadLang

open Stateful ModuleM Relation

variable (env : ModuleEnv) (casts : NumericCasts)

/-! ### The import graph is finite -/

namespace ModuleEnv

/-- The modules that a list of statements imports, when it is read in a directory. -/
def importsOf (dir : Option FilePath) (stmts : ASTStmtList) : List FilePath :=
  stmts.filterMap fun
    | .importStmt path _ _ _ => (env.moduleResolvePath path dir).toOption
    | _ => none

theorem mem_importsOf {dir : Option FilePath} {stmts : ASTStmtList} {q : FilePath} :
    q ∈ env.importsOf dir stmts ↔ env.ImportedBy dir stmts q := by
  unfold importsOf
  rw [List.mem_filterMap]
  constructor
  · rintro ⟨stmt, hmem, hq⟩
    cases stmt with
    | importStmt path moduleAlias isSelective symbols =>
        refine ⟨path, moduleAlias, isSelective, symbols, hmem, ?_⟩
        change (env.moduleResolvePath path dir).toOption = some q at hq
        cases hr : env.moduleResolvePath path dir with
        | error e =>
            rw [hr] at hq
            cases hq
        | ok p =>
            rw [hr] at hq
            rw [Option.some.inj hq]
    | _ => cases hq
  · rintro ⟨path, moduleAlias, isSelective, symbols, hmem, hq⟩
    refine ⟨_, hmem, ?_⟩
    show (env.moduleResolvePath path dir).toOption = some q
    rw [hq]
    rfl

variable {env}

theorem mem_files_of_tryPath {base q : FilePath} (h : env.tryPathWithExtension base = some q) :
    q ∈ env.files.map (·.1) := by
  have hfile : env.fileExistsAndRegular q = true := by
    unfold tryPathWithExtension at h
    split at h
    · rename_i hbase
      rwa [← Option.some.inj h]
    · split at h
      · rename_i hext
        rwa [← Option.some.inj h]
      · cases h
  unfold fileExistsAndRegular file at hfile
  rw [Option.isSome_map, List.find?_isSome] at hfile
  obtain ⟨x, hx, heq⟩ := hfile
  exact List.mem_map.mpr ⟨x, hx, by simpa using heq⟩

theorem mem_files_of_trySearchPaths {path q : FilePath} {dirs : List FilePath}
    (h : env.trySearchPaths path dirs = some q) : q ∈ env.files.map (·.1) := by
  induction dirs with
  | nil => cases h
  | cons dir dirs ih =>
      unfold trySearchPaths at h
      split at h
      · exact ih h
      · cases htry : env.tryPathWithExtension (dir ++ '/' :: path) with
        | none =>
            rw [htry] at h
            exact ih h
        | some p =>
            rw [htry] at h
            cases h
            exact mem_files_of_tryPath htry

/-- Path resolution finds files of the file system only. -/
theorem mem_files_of_resolve {path q : FilePath} {dir : Option FilePath}
    (h : env.moduleResolvePath path dir = .ok q) : q ∈ env.files.map (·.1) := by
  have hsearch : env.resolveInSearchPaths path = .ok q → q ∈ env.files.map (·.1) := by
    intro h
    unfold resolveInSearchPaths at h
    cases hr : env.trySearchPaths path env.searchPaths with
    | none =>
        rw [hr] at h
        cases h
    | some p =>
        rw [hr] at h
        cases h
        exact mem_files_of_trySearchPaths hr
  unfold moduleResolvePath at h
  split at h
  · cases hr : env.tryPathWithExtension path with
    | none =>
        rw [hr] at h
        cases h
    | some p =>
        rw [hr] at h
        cases h
        exact mem_files_of_tryPath hr
  · cases dir with
    | none => exact hsearch h
    | some dir =>
        dsimp only at h
        split at h
        · cases h
        · cases hr : env.tryPathWithExtension (dir ++ '/' :: path) with
          | none =>
              rw [hr] at h
              exact hsearch h
          | some p =>
              rw [hr] at h
              cases h
              exact mem_files_of_tryPath hr

/-- Finitely many modules are reached from a module. -/
theorem finite_reachable (p : FilePath) : {q | ReflTransGen env.Imports p q}.Finite := by
  refine Set.Finite.subset (List.finite_toSet (p :: env.files.map (·.1))) fun q hq => ?_
  cases hq with
  | refl => exact List.mem_cons_self
  | tail _ himports =>
      obtain ⟨_, _, _, _, _, hresolve⟩ := himports
      exact List.mem_cons_of_mem _ (mem_files_of_resolve hresolve)

theorem Reachable.imports {stmts : ASTStmtList} {p q : FilePath} (hp : env.Reachable stmts p)
    (h : env.Imports p q) : env.Reachable stmts q :=
  hp.imp fun _ hr => ⟨hr.1, hr.2.tail h⟩

/-- The modules that are reached are among those of a list that the imports stay in. -/
theorem mem_of_reachable {stmts : ASTStmtList} (modules : List FilePath)
    (hentry : ∀ p ∈ env.importsOf none stmts, p ∈ modules)
    (hclosed : ∀ p ∈ modules, ∀ q ∈ env.importsOf (some (dirname p)) (env.source p), q ∈ modules)
    {p : FilePath} (h : env.Reachable stmts p) : p ∈ modules := by
  obtain ⟨q, hq, hqp⟩ := h
  induction hqp with
  | refl => exact hentry q (env.mem_importsOf.mpr hq)
  | tail _ himports ih => exact hclosed _ ih _ (env.mem_importsOf.mpr himports)

/-- There is no cycle where every import goes down in rank. -/
theorem not_hasCycle_of_rank {stmts : ASTStmtList} (rank : FilePath → ℕ)
    (hrank : ∀ p q, env.Reachable stmts p → env.Imports p q → rank q < rank p) :
    ¬ env.HasCycle stmts := by
  rintro ⟨p, hp, hcycle⟩
  have hlt : ∀ q, TransGen env.Imports p q → env.Reachable stmts q ∧ rank q < rank p := by
    intro q hq
    induction hq with
    | single himports => exact ⟨hp.imports himports, hrank _ _ hp himports⟩
    | tail _ himports ih =>
        exact ⟨ih.1.imports himports, (hrank _ _ ih.1 himports).trans ih.2⟩
  exact (hlt p hcycle).2.false

end ModuleEnv

/-! ### The pass on an entry file -/

variable {env casts}

/-- A module that reaches no cycle has a depth at which its preprocessing ends. -/
theorem exists_depth_preprocessModule {p : FilePath}
    (h : ∀ q, ReflTransGen env.Imports p q → ¬ TransGen env.Imports q q) :
    ∃ N, ∀ n, N ≤ n → Sound env False (preprocessModule env casts n p) :=
  exists_depth (P := fun n p => Sound env False (preprocessModule env casts n p))
    (fun _ _ => env.mem_importsOf) (fun _ _ => sound_preprocessModule_succ)
    (acc_of_acyclic (ModuleEnv.finite_reachable p) h)

theorem located_map_stmt (file : SourceFile) (stmts : ASTStmtList) :
    (ModuleEnv.located file stmts).map (·.stmt) = stmts := by
  unfold ModuleEnv.located
  rw [List.map_map]
  exact List.zipIdx_map_fst 0 stmts

variable (env casts) in
/-- The run of the pass on an entry file is that of its loop. -/
theorem run_preprocessEntry (n : ℕ) (stmts : ASTStmtList) :
    ∃ s program nodes, ProgramInv env s program.head nodes .empty [] ∧
      nodes.map (·.2) = ModuleEnv.located .entry stmts ∧
      (∃ heap, s = { ModuleState.init with heap }) ∧
      (buildStmtList .entry stmts).result .init = .ok program ∧
      (preprocessEntry env casts n stmts).result .init =
        (Stateful.loop .diverges (preprocessProgramTurn env casts n) n
          (program.head, .empty)).result s ∧
      (preprocessEntry env casts n stmts).final .init =
        (Stateful.loop .diverges (preprocessProgramTurn env casts n) n
          (program.head, .empty)).final s := by
  obtain ⟨heap, program, nodes, hresult, hfinal, hr, hnodes, -⟩ :=
    run_buildStmtList .entry stmts .init
  refine ⟨{ ModuleState.init with heap }, program, nodes, ?_, hnodes, ⟨heap, rfl⟩, hresult, ?_, ?_⟩
  · refine ⟨fun p m hm => (by cases hm), hr.chain, hr.nodup, fun x hx => ?_,
      NodeHeap.represents_empty _, fun x hx => absurd hx List.not_mem_nil, fun x _ => ?_⟩
    · exact (ModuleEnv.mem_located (hnodes ▸ List.mem_map_of_mem hx)).1
    · exact List.not_mem_nil
  · unfold preprocessEntry
    rw [result_bind, hresult, hfinal]
    rfl
  · unfold preprocessEntry
    rw [final_bind, hresult, hfinal]
    rfl

variable (env casts) in
/-- **The pass on an entry file.** -/
theorem holds_preprocessEntry {D : Prop} (n : ℕ) (stmts : ASTStmtList)
    (hsound : ImportsSound env casts D n stmts) :
    Holds (LoopDone env (fun _ => false) (ModuleEnv.located .entry stmts) [])
      (fun e _ => e.Acceptable (D ∨ n ≤ stmts.length))
      ((preprocessEntry env casts n stmts).result .init)
      ((preprocessEntry env casts n stmts).final .init) := by
  obtain ⟨s, program, nodes, hinv, hnodes, ⟨heap, rfl⟩, -, hresult, hfinal⟩ :=
    run_preprocessEntry env casts n stmts
  have hstmts : nodes.map (·.2.stmt) = stmts := by
    rw [← located_map_stmt .entry stmts, ← hnodes, List.map_map]
    rfl
  have hholds := holds_loop casts n nodes n hinv (hstmts ▸ hsound)
  rw [hresult, hfinal]
  rw [hnodes] at hholds
  refine hholds.mono (fun _ h => h) fun e h => ?_
  have hlength : nodes.length = stmts.length := by rw [← hstmts, List.length_map]
  rw [← hlength]
  exact h.acceptable

/-- The pass comes to an end, whatever its depth may be. -/
def Terminates (env : ModuleEnv) (casts : NumericCasts) (stmts : ASTStmtList) : Prop :=
  ∃ N, ∀ n, N ≤ n → (preprocessEntry env casts n stmts).result .init ≠ .error .diverges

/-- The pass fails with an error for a circular dependency. -/
def ReportsCycle (env : ModuleEnv) (casts : NumericCasts) (stmts : ASTStmtList) : Prop :=
  ∃ N, ∀ n, N ≤ n → ∃ name, (preprocessEntry env casts n stmts).result .init =
    .error (.error (.circularDependency name))

/-- No run ends with the error for a circular dependency. -/
theorem not_reportsCycle (stmts : ASTStmtList) : ¬ ReportsCycle env casts stmts := by
  rintro ⟨N, hN⟩
  obtain ⟨name, hresult⟩ := hN N le_rfl
  have hholds := holds_preprocessEntry env casts (D := True) N stmts
    fun p _ => sound_preprocessModule N p
  rw [hresult] at hholds
  exact hholds

theorem terminates_of_acyclic {stmts : ASTStmtList} (h : ¬ env.HasCycle stmts) :
    Terminates env casts stmts := by
  have hdepth : ∀ p ∈ env.importsOf none stmts,
      ∃ N, ∀ n, N ≤ n → Sound env False (preprocessModule env casts n p) := by
    intro p hp
    refine exists_depth_preprocessModule fun q hpq hcycle => ?_
    exact h ⟨q, ⟨p, env.mem_importsOf.mp hp, hpq⟩, hcycle⟩
  obtain ⟨N, hN⟩ := exists_bound hdepth
  refine ⟨max N (stmts.length + 1), fun n hn hdiverges => ?_⟩
  have hholds := holds_preprocessEntry env casts (D := False) n stmts
    fun p hp => hN n ((le_max_left ..).trans hn) p (env.mem_importsOf.mpr hp)
  rw [hdiverges] at hholds
  have hlength := (le_max_right N (stmts.length + 1)).trans hn
  exact hholds.elim id fun hle => Nat.not_succ_le_self _ (hlength.trans hle)

/-- **The pass terminates, and reports the cycles, exactly on the graphs without one.** -/
theorem terminates_reporting_iff (env : ModuleEnv) (casts : NumericCasts) (stmts : ASTStmtList) :
    (Terminates env casts stmts ∧ (env.HasCycle stmts → ReportsCycle env casts stmts)) ↔
      ¬ env.HasCycle stmts :=
  ⟨fun h hcycle => not_reportsCycle stmts (h.2 hcycle),
    fun h => ⟨terminates_of_acyclic h, fun hcycle => absurd hcycle h⟩⟩

/-! ### Two modules that import each other -/

/-- Conversions for runs in which no number is converted. -/
def noCasts : NumericCasts where
  intToDouble _ := ⟨0⟩
  floatToDouble _ := ⟨0⟩
  intToFloat _ := ⟨0⟩
  doubleToFloat _ := ⟨0⟩
  doubleToInt _ := 0
  floatToInt _ := 0

/-- The import of a whole module, without an alias. -/
def importOf (path : String) : ASTStmt :=
  .importStmt path.toList none false []

/-- `let name: Int = value`, and the default export of it. -/
def exportedConstant (name : String) (value : BreadInt) : ASTStmtList :=
  [.varDecl name.toList .typeInt none (.int value) false, .exportStmt true [(name.toList, none)]]

/-- The files `a.bread` and `b.bread`, each of which imports the other one. -/
def mutualImports : ModuleEnv where
  files := [("./a.bread".toList, some [importOf "b"]), ("./b.bread".toList, some [importOf "a"])]
  searchPaths := [".".toList]

/-- The recursion goes on: at depth twelve it has not come to an end, and no error has been
set. -/
example : (preprocessEntry mutualImports noCasts 12 [importOf "a"]).result .init =
    .error .diverges := by
  decide +kernel

/-- The cycle of two modules that import each other is not reported. -/
theorem mutual_imports_unreported :
    ¬ (Terminates mutualImports noCasts [importOf "a"] ∧
      (mutualImports.HasCycle [importOf "a"] →
        ReportsCycle mutualImports noCasts [importOf "a"])) := by
  rintro ⟨-, hreports⟩
  have hentry : mutualImports.ImportedBy none [importOf "a"] "./a.bread".toList :=
    mutualImports.mem_importsOf.mp (by decide +kernel)
  have hab : mutualImports.Imports "./a.bread".toList "./b.bread".toList :=
    mutualImports.mem_importsOf.mp (by decide +kernel)
  have hba : mutualImports.Imports "./b.bread".toList "./a.bread".toList :=
    mutualImports.mem_importsOf.mp (by decide +kernel)
  exact not_reportsCycle _ (hreports ⟨_, ⟨_, hentry, .refl⟩, .tail (.single hab) hba⟩)

end BreadLang
