import BreadLang.Codegen.Steps
import BreadLang.Codegen.SemanticFacts
import BreadLang.Library.Trace

/-!
# The order of declarations and calls

The analysis fills the table of functions with entries that have no LLVM
function.  The generator prepends the real ones, but only when it gets to the
declarations: a call that is built before finds the entry of the analysis and
uses a null pointer.  The bodies of functions are built after all declarations,
top-level code and the bodies of methods are built on the way.

`callsResolve_iff` says exactly when this does not happen.
-/

namespace BreadLang

open Stateful Trace

/-- **Every call that has been built** resolves to an entry whose LLVM function
and type are set. -/
def CallsResolve (cg : Cg) : Prop :=
  ∀ callee, .functionCalled callee ∈ cg.trace → callee.fn.isSome

/-- The name of the function whose declaration an event is. -/
def CgEvent.added : CgEvent → Option Ident
  | .functionAdded name => some name
  | _ => none

/-- The names of the functions whose declarations have been built. -/
def addedNames (trace : List CgEvent) : List Ident :=
  trace.filterMap CgEvent.added

/-- A property of the calls among the events. -/
def CgEvent.OfCall (P : CgFunction → List CgEvent → Prop) (event : CgEvent)
    (past : List CgEvent) : Prop :=
  match event with
  | .functionCalled callee => P callee past
  | _ => True

/-- **Every call comes after the declaration**: the name that is called is the
name of a function whose declaration has been built before. -/
def DeclaredBeforeCalled : List CgEvent → Prop :=
  Each (CgEvent.OfCall fun callee past => callee.name ∈ addedNames past)

theorem callsResolve_iff_each (cg : Cg) :
    CallsResolve cg ↔ Each (CgEvent.OfCall fun callee _ => callee.fn.isSome) cg.trace := by
  have hall : Each (CgEvent.OfCall fun callee _ => callee.fn.isSome) cg.trace ↔
      ∀ event ∈ cg.trace, CgEvent.OfCall (fun callee _ => callee.fn.isSome) event [] := by
    rw [← each_iff_forall_mem]
    refine Each.congr fun event past _ => ?_
    cases event <;> rfl
  rw [hall]
  constructor
  · intro h event hevent
    cases event with
    | functionCalled callee => exact h callee hevent
    | _ => trivial
  · intro h callee hcallee
    exact h _ hcallee

/-! ### The table of functions -/

/-- **The table of functions as the generator keeps it**: the entries of the
declarations that have been built, all of them set, in front of those of the
analysis, none of them set.  A call found one of the former exactly when its name
had been declared. -/
structure FunctionTable (declared : List Ident) (cg : Cg) : Prop where
  table : ∃ added rest, cg.functions = added ++ rest ∧
    added.map CgFunction.name = addedNames cg.trace ∧ (∀ f ∈ added, f.fn.isSome) ∧
    rest.map CgFunction.name = declared ∧ (∀ f ∈ rest, f.fn = none)
  calls : Each (CgEvent.OfCall fun callee past =>
    callee.fn.isSome ↔ callee.name ∈ addedNames past) cg.trace

variable {declared : List Ident} {cg cg' : Cg}

theorem Analyze.Predeclared.functionTable (h : Analyze.Predeclared declared cg) :
    FunctionTable declared cg where
  table := ⟨[], cg.functions, rfl, by rw [h.trace_eq]; rfl, by simp, h.names_eq, h.unset⟩
  calls := by
    rw [h.trace_eq]
    exact each_nil

/-- With such a table, calls resolve exactly when they come after the
declarations. -/
theorem FunctionTable.resolve_iff (h : FunctionTable declared cg) :
    CallsResolve cg ↔ DeclaredBeforeCalled cg.trace := by
  rw [callsResolve_iff_each]
  refine Each.congr fun event past hpast => ?_
  cases event with
  | functionCalled callee => exact h.calls _ _ hpast
  | _ => exact Iff.rfl

/-- What a call finds in such a table. -/
theorem FunctionTable.find (h : FunctionTable declared cg) {name : Ident}
    {callee : CgFunction} (hfind : cg.findFunction name = some callee) :
    (callee.fn.isSome ↔ callee.name ∈ addedNames cg.trace) ∧
      callee.name ∈ addedNames cg.trace ++ declared := by
  obtain ⟨added, rest, hfunctions, hadded, hset, hrest, hunset⟩ := h.table
  unfold Cg.findFunction at hfind
  rw [hfunctions, List.find?_append] at hfind
  rw [← hadded, ← hrest, ← List.map_append]
  have hname : callee.name = name := by
    rw [← List.find?_append] at hfind
    simpa using List.find?_some hfind
  cases hfirst : added.find? fun f => f.name == name with
  | some f =>
      rw [hfirst] at hfind
      cases hfind
      have hmem := List.mem_of_find?_eq_some hfirst
      refine ⟨⟨fun _ => List.mem_map_of_mem hmem, fun _ => hset _ hmem⟩, ?_⟩
      exact List.mem_map_of_mem (List.mem_append_left rest hmem)
  | none =>
      rw [hfirst, Option.none_or] at hfind
      have hmem := List.mem_of_find?_eq_some hfind
      -- no entry in front has the name, and the one found is not set
      have hnot : callee.name ∉ added.map CgFunction.name := by
        intro hin
        obtain ⟨f, hf, hfname⟩ := List.mem_map.mp hin
        have hne := List.find?_eq_none.mp hfirst f hf
        simp [hfname, hname] at hne
      refine ⟨⟨fun hsome => ?_, fun hin => absurd hin hnot⟩, ?_⟩
      · rw [hunset callee hmem] at hsome
        cases hsome
      · exact List.mem_map_of_mem (List.mem_append_right added hmem)

/-- An event that is neither a declaration nor a call. -/
theorem FunctionTable.record (h : FunctionTable declared cg) {event : CgEvent}
    (hadded : event.added = none)
    (hcall : CgEvent.OfCall (fun callee past =>
      callee.fn.isSome ↔ callee.name ∈ addedNames past) event cg.trace) :
    FunctionTable declared { cg with trace := event :: cg.trace } where
  table := by
    obtain ⟨added, rest, hfunctions, hnames, hrest⟩ := h.table
    refine ⟨added, rest, hfunctions, ?_, hrest⟩
    rw [hnames]
    unfold addedNames
    rw [List.filterMap_cons, hadded]
  calls := each_cons.mpr ⟨hcall, h.calls⟩

theorem FunctionTable.step (hstep : CgStep cg cg') (h : FunctionTable declared cg) :
    FunctionTable declared cg' := by
  cases hstep with
  | function entry hentry =>
      obtain ⟨added, rest, hfunctions, hnames, hset, hrest⟩ := h.table
      refine ⟨⟨entry :: added, rest, ?_, ?_, ?_, hrest⟩, each_cons.mpr ⟨trivial, h.calls⟩⟩
      · rw [List.cons_append, hfunctions]
      · rw [List.map_cons, hnames]
        rfl
      · exact List.forall_mem_cons.mpr ⟨hentry, hset⟩
  | call name callee hfind => exact h.record rfl (h.find hfind).1
  | assign fn name op target _ => exact h.record rfl trivial
  | methodCall varName name argCount => exact h.record rfl trivial
  | slot => exact ⟨h.table, h.calls⟩
  | scope => exact ⟨h.table, h.calls⟩
  | loop => exact ⟨h.table, h.calls⟩
  | number => exact ⟨h.table, h.calls⟩
  | constructor => exact ⟨h.table, h.calls⟩
  | method => exact ⟨h.table, h.calls⟩
  | body => exact ⟨h.table, h.calls⟩

/-- The generator keeps the table. -/
theorem FunctionTable.reaches (h : FunctionTable declared cg) (hreaches : Reaches cg cg') :
    FunctionTable declared cg' :=
  hreaches.invariant (fun _ _ hstep => FunctionTable.step hstep) h

/-! ### The first pass -/

theorem addedNames_subset {past trace : List CgEvent} (h : past <:+ trace) :
    addedNames past ⊆ addedNames trace :=
  (h.filterMap _).subset

/-- A declaration that has been built is in the table. -/
theorem buildFuncDecl_added (n : ℕ) (fn : Option CgCallee) (decl : FuncDecl)
    {code : List CodeStmt} (h : ((builder n).stmt fn (.funcDecl decl)).result cg = .ok code) :
    decl.name ∈ addedNames (((builder n).stmt fn (.funcDecl decl)).final cg).trace := by
  cases n with
  | zero => cases h
  | succ n => exact List.mem_cons_self

/-- Once the top-level statements have been built, every function that the
program declares is in the table. -/
theorem mapM_stmt_added (n : ℕ) (fn : Option CgCallee) (program : ASTStmtList)
    {code : List (List CodeStmt)}
    (h : (program.mapM ((builder n).stmt fn)).result cg = .ok code) :
    Analyze.declaredNames program ⊆
      addedNames ((program.mapM ((builder n).stmt fn)).final cg).trace := by
  induction program generalizing cg code with
  | nil => exact List.nil_subset _
  | cons s program ih =>
      rw [List.mapM_cons] at h ⊢
      obtain ⟨c, hs, hrest⟩ := result_bind_eq_ok.mp h
      obtain ⟨cs, hrest, -⟩ := result_bind_eq_ok.mp hrest
      rw [final_bind_of_ok hs, final_bind_of_ok hrest]
      intro name hname
      obtain ⟨s', hs', hs'name⟩ := List.mem_filterMap.mp hname
      rcases List.mem_cons.mp hs' with rfl | hs'
      · cases s' with
        | funcDecl decl =>
            cases hs'name
            have hsteps := keeps_mapM ((builder_steps
              (((builder n).stmt fn (.funcDecl decl)).final cg) n).stmt fn) program _ .refl
            exact addedNames_subset hsteps.trace_suffix (buildFuncDecl_added n fn decl hs)
        | _ => cases hs'name
      · exact ih hrest (List.mem_filterMap.mpr ⟨s', hs', hs'name⟩)

/-! ### The second pass -/

/-- From a state in which every name that the analysis declared has been added, the
calls keep coming after the declarations. -/
theorem declaredBeforeCalled_reaches (hreaches : Reaches cg cg')
    (htable : FunctionTable declared cg) (hadded : declared ⊆ addedNames cg.trace)
    (h : DeclaredBeforeCalled cg.trace) : DeclaredBeforeCalled cg'.trace := by
  have hstep : ∀ s t, CgStep s t →
      FunctionTable declared s ∧ declared ⊆ addedNames s.trace ∧ DeclaredBeforeCalled s.trace →
      FunctionTable declared t ∧ declared ⊆ addedNames t.trace ∧
        DeclaredBeforeCalled t.trace := by
    rintro s t hst ⟨htable, hadded, h⟩
    refine ⟨htable.step hst, List.Subset.trans hadded (addedNames_subset hst.trace_suffix), ?_⟩
    cases hst with
    | call name callee hfind =>
        refine each_cons.mpr ⟨?_, h⟩
        rcases List.mem_append.mp (htable.find hfind).2 with hin | hin
        · exact hin
        · exact hadded hin
    | function => exact each_cons.mpr ⟨trivial, h⟩
    | assign => exact each_cons.mpr ⟨trivial, h⟩
    | methodCall => exact each_cons.mpr ⟨trivial, h⟩
    | _ => exact h
  exact (hreaches.invariant hstep ⟨htable, hadded, h⟩).2.2

section Accepted

variable {program program' : ASTStmtList}

theorem buildModule_functionTable
    (haccepted : semanticAnalyze .init program = .ok (program', cg)) (n : ℕ) :
    FunctionTable (Analyze.declaredNames program).reverse
      ((buildModule n program').final cg) :=
  (Analyze.semanticAnalyze_spec haccepted).1.functionTable.reaches
    (buildModule_reaches n program' cg)

/-- The passes after the top-level statements do not add a call before its
declaration. -/
theorem declaredBeforeCalled_buildModule
    (haccepted : semanticAnalyze .init program = .ok (program', cg)) (n : ℕ) :
    DeclaredBeforeCalled ((buildModule n program').final cg).trace ↔
      DeclaredBeforeCalled ((buildStmts (builder n) none program').final cg).trace := by
  obtain ⟨hpredeclared, hplaces⟩ := Analyze.semanticAnalyze_spec haccepted
  have hfirst : Reaches cg ((buildStmts (builder n) none program').final cg) :=
    steps_buildStmts (builder_steps cg n) none program' cg .refl
  have htable := hpredeclared.functionTable.reaches hfirst
  cases hmain : (buildStmts (builder n) none program').result cg with
  | error e =>
      -- the first pass fails, and nothing is built after it
      have heq : (buildModule n program').final cg =
          (buildStmts (builder n) none program').final cg := final_bind_of_error hmain
      rw [heq]
  | ok main =>
      have hrest := buildModule_after n program' hmain
      refine ⟨fun h => h.of_suffix hrest.trace_suffix, fun h => ?_⟩
      refine declaredBeforeCalled_reaches hrest htable ?_ h
      obtain ⟨codes, hcodes, -⟩ := result_bind_eq_ok.mp hmain
      have hadded := mapM_stmt_added n none program' hcodes
      intro name hname
      rw [List.mem_reverse, Analyze.declaredNames_eq, ← hplaces,
        ← Analyze.declaredNames_eq] at hname
      have hin := hadded hname
      unfold buildStmts
      rw [final_bind_of_ok hcodes]
      exact hin

/-- **Calls resolve exactly when the top-level pass meets the declarations first.**
For every accepted program, every call that is built, in whichever pass, finds
an entry with an LLVM function if and only if, while the top-level statements
are built, no call of a function comes before its declaration. -/
theorem callsResolve_iff
    (haccepted : semanticAnalyze .init program = .ok (program', cg)) (n : ℕ) :
    CallsResolve ((buildModule n program').final cg) ↔
      DeclaredBeforeCalled ((buildStmts (builder n) none program').final cg).trace :=
  (buildModule_functionTable haccepted n).resolve_iff.trans
    (declaredBeforeCalled_buildModule haccepted n)

end Accepted

/-- A program that calls a function above its declaration. -/
def callAboveDeclaration : ASTStmtList :=
  [.print (.call "f".toList []),
    .funcDecl ⟨"f".toList, [], .typeInt, some .int, some [.return (.int 1) none]⟩]

/-- The program is accepted, and the call finds the entry of the analysis. -/
theorem callAboveDeclaration_unresolved :
    ∃ program' cg, semanticAnalyze .init callAboveDeclaration = .ok (program', cg) ∧
      ∀ n, ¬ CallsResolve ((buildModule (n + 2) program').final cg) := by
  refine ⟨_, _, rfl, fun n h => ?_⟩
  have hcall := h _ (List.Mem.head _)
  cases hcall

/-- With the declaration first, the call resolves. -/
theorem callAboveDeclaration_reverse_resolves :
    ∃ program' cg, semanticAnalyze .init callAboveDeclaration.reverse = .ok (program', cg) ∧
      CallsResolve ((buildModule 2 program').final cg) := by
  refine ⟨_, _, rfl, (@callsResolve_iff _ callAboveDeclaration.reverse _ rfl 2).mpr ?_⟩
  exact each_cons.mpr ⟨List.mem_cons_self, each_cons.mpr ⟨trivial, each_nil⟩⟩

/-! ### Programs that declare their functions first -/

/-- From a state whose table lacks only the functions that the statements declare,
the calls come after the declarations when the statements declare the functions
first. -/
theorem mapM_stmt_declaredBeforeCalled (n : ℕ) {names : List Ident} {k : ℕ}
    {program : ASTStmtList}
    (hfirst : program.map Analyze.declaredName =
      names.map some ++ List.replicate k none)
    (htable : FunctionTable declared cg) (hdeclared : declared ⊆ addedNames cg.trace ++ names)
    (h : DeclaredBeforeCalled cg.trace) :
    DeclaredBeforeCalled ((program.mapM ((builder n).stmt none)).final cg).trace := by
  induction names generalizing program cg with
  | nil =>
      rw [List.append_nil] at hdeclared
      have hsteps := keeps_mapM ((builder_steps cg n).stmt none) program _ .refl
      exact declaredBeforeCalled_reaches hsteps htable hdeclared h
  | cons name names ih =>
      cases program with
      | nil => cases hfirst
      | cons s program =>
          obtain ⟨hs, hprogram⟩ := List.cons.inj hfirst
          cases s with
          | funcDecl decl =>
              cases hs
              cases n with
              | zero => exact h
              | succ n =>
                  rw [List.mapM_cons]
                  -- the declaration is built, and adds its name
                  have hdecl : ((builder (n + 1)).stmt none (.funcDecl decl)).result cg =
                      .ok [] := rfl
                  have hsteps := (builder_steps cg (n + 1)).stmt none (.funcDecl decl) _ .refl
                  rw [final_bind_of_ok hdecl, final_bind_pure]
                  refine ih hprogram (htable.reaches hsteps) ?_ (each_cons.mpr ⟨trivial, h⟩)
                  intro name hname
                  have hin := hdeclared hname
                  rcases List.mem_append.mp hin with hold | hnew
                  · exact List.mem_append_left _
                      (addedNames_subset hsteps.trace_suffix hold)
                  · rcases List.mem_cons.mp hnew with rfl | hlater
                    · exact List.mem_append_left _ List.mem_cons_self
                    · exact List.mem_append_right _ hlater
          | _ => cases hs

/-- **When an accepted program declares its functions before any other statement**,
every call resolves. -/
theorem callsResolve_of_functions_first {program program' : ASTStmtList} {cg : Cg}
    (haccepted : semanticAnalyze .init program = .ok (program', cg)) {names : List Ident}
    {k : ℕ} (hfirst : program.map Analyze.declaredName =
      names.map some ++ List.replicate k none) (n : ℕ) :
    CallsResolve ((buildModule n program').final cg) := by
  obtain ⟨hpredeclared, hplaces⟩ := Analyze.semanticAnalyze_spec haccepted
  have hnames : Analyze.declaredNames program = names := by
    rw [Analyze.declaredNames_eq, hfirst]
    simp [List.filterMap_append, List.filterMap_map]
  rw [(buildModule_functionTable haccepted n).resolve_iff,
    declaredBeforeCalled_buildModule haccepted n]
  unfold buildStmts
  rw [final_bind_pure]
  refine mapM_stmt_declaredBeforeCalled n (hplaces.trans hfirst) hpredeclared.functionTable ?_ ?_
  · intro name hname
    rw [List.mem_reverse, hnames] at hname
    exact List.mem_append_right _ hname
  · rw [hpredeclared.trace_eq]
    exact each_nil

/-- The one function is declared before the call. -/
theorem callAboveDeclaration_reverse_functions_first :
    ∃ program' cg, semanticAnalyze .init callAboveDeclaration.reverse = .ok (program', cg) ∧
      CallsResolve ((buildModule 2 program').final cg) := by
  refine ⟨_, _, rfl, ?_⟩
  exact @callsResolve_of_functions_first callAboveDeclaration.reverse _ _ rfl ["f".toList] 1 rfl 2

end BreadLang
