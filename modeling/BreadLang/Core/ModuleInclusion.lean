import BreadLang.Core.ModuleTermination

/-!
# What the program contains after the pass

The statements of a module are included when the program itself imports it, and at the
first import of the program that means it.  So the program has the statements of the
modules that it names itself, in the order in which it names them first: the modules
that are imported by modules only are left out, a module comes before the ones it
imports if the program names it first, and the alias of an import in a module is not
declared.
-/

namespace BreadLang

open Stateful ModuleM Relation

/-! ### Two entries of a list -/

/-- Two entries of which each one comes before the other one do not both occur once. -/
theorem not_sublist_swap {α β : Type} [DecidableEq β] {f : α → β} {x y : α} {l : List α}
    (hx : l.filter (f · = f x) = [x]) (hy : l.filter (f · = f y) = [y]) (h : [x, y].Sublist l) :
    ¬ [y, x].Sublist l := by
  intro h'
  obtain ⟨front, back, rfl, hxfront, hyback⟩ := List.cons_sublist_iff.mp h
  obtain ⟨front', back', heq, hyfront', hxback'⟩ := List.cons_sublist_iff.mp h'
  rw [List.singleton_sublist] at hyback hxback'
  have htwice : ∀ {z : α} {a b : List α}, (a ++ b).filter (f · = f z) = [z] → z ∈ a → z ∉ b := by
    intro z a b hz ha hb
    have hlength := congrArg List.length hz
    have ha' := List.length_pos_of_mem (List.mem_filter (p := (f · = f z)).mpr ⟨ha, by simp⟩)
    have hb' := List.length_pos_of_mem (List.mem_filter (p := (f · = f z)).mpr ⟨hb, by simp⟩)
    rw [List.filter_append, List.length_append, List.length_singleton] at hlength
    omega
  rcases List.append_eq_append_iff.mp heq with ⟨mid, rfl, rfl⟩ | ⟨mid, rfl, rfl⟩
  · exact htwice hx hxfront (List.mem_append_right _ hxback')
  · rw [heq] at hy
    exact htwice hy hyfront' (List.mem_append_right _ hyback)

variable {env : ModuleEnv} {casts : NumericCasts}

/-! ### Locations -/

namespace ModuleEnv

theorem nodup_loc_located (file : SourceFile) (stmts : ASTStmtList) :
    ((located file stmts).map (·.loc)).Nodup := by
  unfold located
  rw [List.map_map]
  have hindex : (stmts.zipIdx.map fun x => x.2).Nodup := by
    rw [List.zipIdx_map_snd]
    exact List.nodup_range'
  have hloc : (stmts.zipIdx.map fun x => (⟨file, x.2⟩ : SourceLoc)) =
      (stmts.zipIdx.map fun x => x.2).map (⟨file, ·⟩) := by
    rw [List.map_map]
    rfl
  show (stmts.zipIdx.map fun x => (⟨file, x.2⟩ : SourceLoc)).Nodup
  rw [hloc]
  exact hindex.map fun _ _ h => (SourceLoc.mk.inj h).2

/-- A statement of a file is known by its location. -/
theorem eq_of_loc {file : SourceFile} {stmts : ASTStmtList} {x y : StmtNode}
    (hx : x ∈ located file stmts) (hy : y ∈ located file stmts) (h : x.loc = y.loc) : x = y :=
  List.inj_on_of_nodup_map (nodup_loc_located file stmts) hx hy h

theorem file_of_mem_plain {p : FilePath} {x : StmtNode} (hx : x ∈ env.plain p) :
    x.loc.file = .module p :=
  (mem_located (List.mem_of_mem_filter hx)).1

theorem filter_loc_located {file : SourceFile} {stmts : ASTStmtList} {node : StmtNode}
    {l : List StmtNode} (hl : l.Sublist (located file stmts)) (hmem : node ∈ l) :
    l.filter (·.loc = node.loc) = [node] := by
  have hnodup := (nodup_loc_located file stmts).sublist (hl.map (·.loc))
  induction l with
  | nil => cases hmem
  | cons x l ih =>
      rw [List.map_cons, List.nodup_cons] at hnodup
      rcases List.mem_cons.mp hmem with rfl | hmem
      · rw [List.filter_cons_of_pos (by simp), List.filter_eq_nil_iff.mpr]
        intro y hy hloc
        exact hnodup.1 (of_decide_eq_true hloc ▸ List.mem_map_of_mem hy)
      · rw [List.filter_cons_of_neg, ih ((List.sublist_cons_self x l).trans hl) hmem hnodup.2]
        intro hloc
        exact hnodup.1 (of_decide_eq_true hloc ▸ List.mem_map_of_mem hmem)

end ModuleEnv

/-! ### The statements of a module in the new list -/

section Expands

variable {included : FilePath → Bool} {nodes out : List StmtNode} {p q : FilePath}

/-- The modules that the program imports, in the order of its imports. -/
def ModuleEnv.programImports (env : ModuleEnv) (nodes : List StmtNode) : List FilePath :=
  env.importsOf none (nodes.map (·.stmt))

theorem programImports_cons_import {node : StmtNode} {path : FilePath} {importAlias : Option Ident}
    {isSelective : Bool} {symbols : List (Ident × Option Ident)}
    (hstmt : node.stmt = .importStmt path importAlias isSelective symbols)
    (hp : env.moduleResolvePath path none = .ok p) :
    env.programImports (node :: nodes) = p :: env.programImports nodes := by
  unfold ModuleEnv.programImports ModuleEnv.importsOf
  rw [List.map_cons, List.filterMap_cons, hstmt]
  dsimp only
  rw [hp]
  rfl

theorem programImports_cons {node : StmtNode}
    (hstmt : ∀ path al sel syms, node.stmt ≠ .importStmt path al sel syms) :
    env.programImports (node :: nodes) = env.programImports nodes := by
  unfold ModuleEnv.programImports ModuleEnv.importsOf
  rw [List.map_cons, List.filterMap_cons]
  cases hv : node.stmt with
  | importStmt path al sel syms => exact absurd hv (hstmt path al sel syms)
  | _ => rfl

/-- What an import is replaced by, and what another statement is. -/
theorem Expansion.cases {node : StmtNode} {new : List StmtNode} {included' : FilePath → Bool}
    (h : Expansion env included node new included') :
    (∃ path importAlias isSelective symbols p decls,
      node.stmt = .importStmt path importAlias isSelective symbols ∧
      env.moduleResolvePath path none = .ok p ∧ IsAliasDecl node.loc importAlias decls ∧
      new = (if included p then [] else env.plain p) ++ decls ∧
      included' = fun q => q == p || included q) ∨
    ((∀ path al sel syms, node.stmt ≠ .importStmt path al sel syms) ∧
      (new = [] ∨ new = [node]) ∧ included' = included) := by
  unfold Expansion at h
  cases hv : node.stmt with
  | importStmt path importAlias isSelective symbols =>
      rw [hv] at h
      obtain ⟨p, decls, hp, hdecls, hnew, hincluded⟩ := h
      exact .inl ⟨path, importAlias, isSelective, symbols, p, decls, rfl, hp, hdecls, hnew,
        hincluded⟩
  | exportStmt isDefault symbols =>
      rw [hv] at h
      exact .inr ⟨fun _ _ _ _ => ASTStmt.noConfusion, .inl h.1, h.2⟩
  | _ =>
      rw [hv] at h
      exact .inr ⟨fun _ _ _ _ => ASTStmt.noConfusion, .inr h.1, h.2⟩

theorem IsAliasDecl.loc {loc : SourceLoc} {importAlias : Option Ident} {decls : List StmtNode}
    (h : IsAliasDecl loc importAlias decls) {x : StmtNode} (hx : x ∈ decls) : x.loc = loc := by
  cases importAlias with
  | none =>
      rw [show decls = [] from h] at hx
      cases hx
  | some importAlias =>
      obtain ⟨type, name, desc, rfl⟩ := h
      rw [List.mem_singleton.mp hx]
      rfl

theorem filter_eq_nil_of_loc (loc : SourceLoc) {file : SourceFile} {l : List StmtNode}
    (hl : ∀ x ∈ l, x.loc = loc) (hfile : loc.file ≠ file) :
    l.filter (·.loc.file = file) = [] := by
  rw [List.filter_eq_nil_iff]
  intro x hx hmem
  exact hfile (hl x hx ▸ of_decide_eq_true hmem)

theorem filter_plain (p q : FilePath) :
    (env.plain q).filter (·.loc.file = .module p) = if q = p then env.plain p else [] := by
  by_cases heq : q = p
  · subst heq
    rw [if_pos rfl, List.filter_eq_self]
    exact fun x hx => decide_eq_true (ModuleEnv.file_of_mem_plain hx)
  · rw [if_neg heq, List.filter_eq_nil_iff]
    intro x hx hmem
    exact heq (SourceFile.module.inj
      ((ModuleEnv.file_of_mem_plain hx).symm.trans (of_decide_eq_true hmem)))

/-- **The statements of a module are in the new list, in order and once, if and only if the
program imports the module itself** and it has not been included before. -/
theorem Expands.filter_module (h : Expands env included nodes out)
    (hentry : ∀ x ∈ nodes, x.loc.file = .entry) :
    out.filter (·.loc.file = .module p) =
      if included p = false ∧ p ∈ env.programImports nodes then env.plain p else [] := by
  induction h with
  | nil => rw [if_neg fun h => List.not_mem_nil h.2, List.filter_nil]
  | @cons included included' node nodes new out hnode _ ih =>
      have hne : node.loc.file ≠ .module p := by
        rw [hentry node List.mem_cons_self]
        exact SourceFile.noConfusion
      rw [List.filter_append, ih fun x hx => hentry x (List.mem_cons_of_mem _ hx)]
      rcases hnode.cases with ⟨_, _, _, _, q, decls, hstmt, hq, hdecls, rfl, rfl⟩ | ⟨hstmt, hnew, rfl⟩
      · rw [programImports_cons_import hstmt hq, List.filter_append,
          filter_eq_nil_of_loc node.loc (fun x hx => hdecls.loc hx) hne, List.append_nil]
        by_cases heq : p = q
        · subst heq
          cases hi : included p with
          | true => simp [hi]
          | false => simp [hi, filter_plain]
        · cases hi : included q with
          | true => simp [heq]
          | false => simp [heq, filter_plain, Ne.symm heq]
      · have hnil : new.filter (·.loc.file = .module p) = [] := by
          refine filter_eq_nil_of_loc node.loc (fun x hx => ?_) hne
          rcases hnew with rfl | rfl
          · cases hx
          · rw [List.mem_singleton.mp hx]
        rw [hnil, List.nil_append, programImports_cons hstmt]

theorem Expands.mem_of_mem_plain (h : Expands env included nodes out)
    (hentry : ∀ x ∈ nodes, x.loc.file = .entry) (hincluded : included p = false)
    (hp : p ∈ env.programImports nodes) {x : StmtNode} (hx : x ∈ env.plain p) : x ∈ out := by
  have hfilter := h.filter_module (p := p) hentry
  rw [if_pos ⟨hincluded, hp⟩] at hfilter
  exact List.mem_of_mem_filter (hfilter ▸ hx)

/-- **The modules stand in the order in which the program imports them first.** -/
theorem Expands.before (h : Expands env included nodes out)
    (hentry : ∀ x ∈ nodes, x.loc.file = .entry) (hp : p ∈ env.programImports nodes)
    (hp' : included p = false) (hq' : included q = false)
    (hlt : (env.programImports nodes).idxOf q < (env.programImports nodes).idxOf p)
    {x y : StmtNode} (hx : x ∈ env.plain q) (hy : y ∈ env.plain p) : [x, y].Sublist out := by
  induction h with
  | nil => cases hp
  | @cons included included' node nodes new out hnode hnodes ih =>
      have hentry' : ∀ x ∈ nodes, x.loc.file = .entry :=
        fun x hx => hentry x (List.mem_cons_of_mem _ hx)
      rcases hnode.cases with ⟨_, _, _, _, r, decls, hstmt, hr, -, rfl, rfl⟩ | ⟨hstmt, -, rfl⟩
      · rw [programImports_cons_import hstmt hr] at hp hlt
        have hpr : p ≠ r := by
          rintro rfl
          rw [List.idxOf_cons_self] at hlt
          exact Nat.not_lt_zero _ hlt
        have hpmem : p ∈ env.programImports nodes := (List.mem_cons.mp hp).resolve_left hpr
        have hpincl : (p == r || included p) = false := by
          rw [hp', Bool.or_false]
          exact beq_false_of_ne hpr
        by_cases hqr : q = r
        · -- the module of `x` is included here, the one of `y` later
          subst hqr
          rw [hq', if_neg Bool.false_ne_true]
          have hymem := hnodes.mem_of_mem_plain hentry' hpincl hpmem hy
          exact (List.singleton_sublist.mpr (List.mem_append_left _ hx)).append
            (List.singleton_sublist.mpr hymem)
        · rw [List.idxOf_cons_ne _ (Ne.symm hqr), List.idxOf_cons_ne _ (Ne.symm hpr)] at hlt
          have hqincl : (q == r || included q) = false := by
            rw [hq', Bool.or_false]
            exact beq_false_of_ne hqr
          exact (ih hentry' hpmem hpincl hqincl (Nat.lt_of_succ_lt_succ hlt)).trans
            (List.sublist_append_right _ _)
      · rw [programImports_cons hstmt] at hp hlt
        exact (ih hentry' hp hp' hq' hlt).trans (List.sublist_append_right _ _)

/-- What comes from the entry file stands for a statement of it. -/
theorem Expands.loc_of_entry (h : Expands env included nodes out) {x : StmtNode} (hx : x ∈ out)
    (hentry : x.loc.file = .entry) : x.loc ∈ nodes.map (·.loc) := by
  induction h with
  | nil => cases hx
  | @cons included included' node nodes new out hnode _ ih =>
      rw [List.map_cons]
      rcases List.mem_append.mp hx with hx | hx
      · rcases hnode.cases with ⟨_, _, _, _, p, decls, -, -, hdecls, rfl, -⟩ | ⟨-, rfl | rfl, -⟩
        · rcases List.mem_append.mp hx with hx | hx
          · split at hx
            · cases hx
            · rw [ModuleEnv.file_of_mem_plain hx] at hentry
              cases hentry
          · exact hdecls.loc hx ▸ List.mem_cons_self
        · cases hx
        · rw [List.mem_singleton.mp hx]
          exact List.mem_cons_self
      · exact List.mem_cons_of_mem _ (ih hx)

/-- **The alias of an import of the program is declared once.** -/
theorem Expands.filter_alias (h : Expands env included nodes out)
    (hentry : ∀ x ∈ nodes, x.loc.file = .entry) (hnodup : (nodes.map (·.loc)).Nodup)
    {node : StmtNode} (hmem : node ∈ nodes) {path : FilePath} {importAlias : Ident}
    {isSelective : Bool} {symbols : List (Ident × Option Ident)}
    (hstmt : node.stmt = .importStmt path (some importAlias) isSelective symbols) :
    ∃ type name desc, out.filter (·.loc = node.loc) = [aliasDecl node.loc importAlias type name desc] := by
  induction h with
  | nil => cases hmem
  | @cons included included' other nodes new out hnode hnodes ih =>
      rw [List.map_cons, List.nodup_cons] at hnodup
      have hentry' : ∀ x ∈ nodes, x.loc.file = .entry :=
        fun x hx => hentry x (List.mem_cons_of_mem _ hx)
      have hloc : ∀ x ∈ new, x.loc = other.loc ∨ ∃ p, x.loc.file = .module p := by
        intro x hx
        rcases hnode.cases with ⟨_, _, _, _, p, decls, -, -, hdecls, rfl, -⟩ | ⟨-, rfl | rfl, -⟩
        · rcases List.mem_append.mp hx with hx | hx
          · split at hx
            · cases hx
            · exact .inr ⟨p, ModuleEnv.file_of_mem_plain hx⟩
          · exact .inl (hdecls.loc hx)
        · cases hx
        · exact .inl (by rw [List.mem_singleton.mp hx])
      rcases List.mem_cons.mp hmem with rfl | hmem
      · have hout : out.filter (·.loc = node.loc) = [] := by
          rw [List.filter_eq_nil_iff]
          intro x hx heq
          have heq := of_decide_eq_true heq
          refine hnodup.1 (heq ▸ hnodes.loc_of_entry hx ?_)
          rw [heq]
          exact hentry node List.mem_cons_self
        rw [List.filter_append, hout, List.append_nil]
        rcases hnode.cases with ⟨_, _, _, _, p, decls, hstmt', -, hdecls, rfl, -⟩ | ⟨hother, -, -⟩
        · rw [hstmt] at hstmt'
          cases hstmt'
          obtain ⟨type, name, desc, rfl⟩ := hdecls
          refine ⟨type, name, desc, ?_⟩
          have hplain : (if included p then [] else env.plain p).filter (·.loc = node.loc) = [] := by
            rw [List.filter_eq_nil_iff]
            intro x hx heq
            split at hx
            · cases hx
            · have hfile := ModuleEnv.file_of_mem_plain hx
              rw [of_decide_eq_true heq, hentry node List.mem_cons_self] at hfile
              cases hfile
          rw [List.filter_append, hplain, List.nil_append, List.filter_cons_of_pos]
          · rfl
          · exact decide_eq_true rfl
        · exact absurd hstmt (hother _ _ _ _)
      · obtain ⟨type, name, desc, hout⟩ := ih hentry' hnodup.2 hmem
        refine ⟨type, name, desc, ?_⟩
        have hnew : new.filter (·.loc = node.loc) = [] := by
          rw [List.filter_eq_nil_iff]
          intro x hx heq
          rcases hloc x hx with hx | ⟨p, hx⟩
          · exact hnodup.1 (hx ▸ of_decide_eq_true heq ▸ List.mem_map_of_mem hmem)
          · rw [of_decide_eq_true heq, hentry' node hmem] at hx
            cases hx
        rw [List.filter_append, hnew, hout, List.nil_append]

end Expands

/-! ### Whether the program contains the modules -/

/-- **What the pass is for**: the program contains each statement of each module that is
reached once, those of a module in their order and after those of the modules it imports,
and it declares each alias once. -/
structure IncludesModules (env : ModuleEnv) (stmts : ASTStmtList) (out : List StmtNode) : Prop where
  once : ∀ p, env.Reachable stmts p → ∀ node ∈ env.plain p,
    out.filter (·.loc = node.loc) = [node]
  ordered : ∀ p, env.Reachable stmts p → (env.plain p).Sublist out
  before : ∀ p q, env.Reachable stmts p → env.Imports p q → ∀ x ∈ env.plain q,
    ∀ y ∈ env.plain p, [x, y].Sublist out
  aliases : ∀ file, (file = (.entry, stmts) ∨
      ∃ p, env.Reachable stmts p ∧ file = (.module p, env.source p)) →
    ∀ node ∈ ModuleEnv.located file.1 file.2, ∀ path importAlias isSelective symbols,
      node.stmt = .importStmt path (some importAlias) isSelective symbols →
        ∃ type name desc,
          out.filter (·.loc = node.loc) = [aliasDecl node.loc importAlias type name desc]

/-- **The programs that need nothing of the modules' own imports**: a program that itself
imports each module that has statements, a module before those that import it, and whose
modules import nothing under an alias. -/
structure NamesModules (env : ModuleEnv) (stmts : ASTStmtList) : Prop where
  named : ∀ p, env.Reachable stmts p → env.plain p ≠ [] → p ∈ env.importsOf none stmts
  before : ∀ p q, env.Reachable stmts p → env.Imports p q → env.plain p ≠ [] →
    env.plain q ≠ [] → (env.importsOf none stmts).idxOf q < (env.importsOf none stmts).idxOf p
  noAlias : ∀ p, env.Reachable stmts p → ∀ path importAlias isSelective symbols,
    ASTStmt.importStmt path importAlias isSelective symbols ∈ env.source p → importAlias = none

section Whole

variable {stmts : ASTStmtList} {out : List StmtNode}

theorem mem_located_of_mem (file : SourceFile) {stmt : ASTStmt} (h : stmt ∈ stmts) :
    ∃ node ∈ ModuleEnv.located file stmts, node.stmt = stmt := by
  rw [← located_map_stmt file stmts] at h
  exact List.mem_map.mp h

theorem entry_located (x : StmtNode) (hx : x ∈ ModuleEnv.located .entry stmts) :
    x.loc.file = .entry :=
  (ModuleEnv.mem_located hx).1

theorem filter_of_expands
    (h : Expands env (fun _ => false) (ModuleEnv.located .entry stmts) out) (p : FilePath) :
    out.filter (·.loc.file = .module p) =
      if p ∈ env.importsOf none stmts then env.plain p else [] := by
  rw [h.filter_module entry_located, ModuleEnv.programImports, located_map_stmt]
  simp only [true_and]

theorem filter_loc_of_named
    (h : Expands env (fun _ => false) (ModuleEnv.located .entry stmts) out) {p : FilePath}
    (hp : p ∈ env.importsOf none stmts) {node : StmtNode} (hnode : node ∈ env.plain p) :
    out.filter (·.loc = node.loc) = [node] := by
  have hfile : out.filter (·.loc = node.loc) =
      (out.filter (·.loc.file = .module p)).filter (·.loc = node.loc) := by
    rw [List.filter_filter]
    refine List.filter_congr fun x _ => ?_
    by_cases heq : x.loc = node.loc
    · simp [heq, ModuleEnv.file_of_mem_plain hnode]
    · simp [heq]
  rw [hfile, filter_of_expands h, if_pos hp]
  exact ModuleEnv.filter_loc_located List.filter_sublist hnode

theorem before_of_idxOf
    (h : Expands env (fun _ => false) (ModuleEnv.located .entry stmts) out) {p q : FilePath}
    (hp : p ∈ env.importsOf none stmts)
    (hlt : (env.importsOf none stmts).idxOf q < (env.importsOf none stmts).idxOf p)
    {x y : StmtNode} (hx : x ∈ env.plain q) (hy : y ∈ env.plain p) : [x, y].Sublist out := by
  rw [← located_map_stmt .entry stmts] at hp hlt
  exact h.before entry_located hp rfl rfl hlt hx hy

theorem includesModules_of_namesModules
    (h : Expands env (fun _ => false) (ModuleEnv.located .entry stmts) out)
    (hnames : NamesModules env stmts) : IncludesModules env stmts out where
  once p hp node hnode :=
    filter_loc_of_named h (hnames.named p hp (List.ne_nil_of_mem hnode)) hnode
  ordered p hp := by
    by_cases hnil : env.plain p = []
    · rw [hnil]
      exact List.nil_sublist _
    · have hfilter := filter_of_expands h p
      rw [if_pos (hnames.named p hp hnil)] at hfilter
      exact hfilter ▸ List.filter_sublist
  before p q hp himports x hx y hy := by
    have hlt := hnames.before p q hp himports (List.ne_nil_of_mem hy) (List.ne_nil_of_mem hx)
    exact before_of_idxOf h (hnames.named p hp (List.ne_nil_of_mem hy)) hlt hx hy
  aliases file hfile node hnode path importAlias isSelective symbols hstmt := by
    rcases hfile with rfl | ⟨p, hp, rfl⟩
    · exact h.filter_alias entry_located (ModuleEnv.nodup_loc_located .entry stmts) hnode hstmt
    · have hmem := (ModuleEnv.mem_located hnode).2
      rw [hstmt] at hmem
      cases hnames.noAlias p hp _ _ _ _ hmem

theorem namesModules_of_includesModules
    (h : Expands env (fun _ => false) (ModuleEnv.located .entry stmts) out)
    (hincludes : IncludesModules env stmts out) : NamesModules env stmts := by
  have hnamed : ∀ p, env.Reachable stmts p → env.plain p ≠ [] →
      p ∈ env.importsOf none stmts := by
    intro p hp hne
    obtain ⟨node, hnode⟩ := List.exists_mem_of_ne_nil _ hne
    have hmem : node ∈ out := (hincludes.ordered p hp).subset hnode
    have hfilter := filter_of_expands h p
    by_contra hnot
    rw [if_neg hnot, List.filter_eq_nil_iff] at hfilter
    exact hfilter node hmem (decide_eq_true (ModuleEnv.file_of_mem_plain hnode))
  refine ⟨hnamed, fun p q hp himports hpne hqne => ?_, ?_⟩
  · obtain ⟨x, hx⟩ := List.exists_mem_of_ne_nil _ hqne
    obtain ⟨y, hy⟩ := List.exists_mem_of_ne_nil _ hpne
    have hxy := hincludes.before p q hp himports x hx y hy
    have hxonce := hincludes.once q (hp.imports himports) x hx
    have hyonce := hincludes.once p hp y hy
    have hq := hnamed q (hp.imports himports) hqne
    by_contra hnot
    rcases (Nat.le_of_not_lt hnot).lt_or_eq with hlt | heq
    · exact not_sublist_swap hxonce hyonce hxy (before_of_idxOf h hq hlt hy hx)
    · -- the module imports itself, so a statement of it would come before itself
      obtain rfl := (List.idxOf_inj (hnamed p hp hpne)).mp heq
      have hself := hincludes.before p p hp himports x hx x hx
      exact not_sublist_swap hxonce hxonce hself hself
  · intro p hp path importAlias isSelective symbols hmem
    cases importAlias with
    | none => rfl
    | some importAlias =>
        obtain ⟨node, hnode, hstmt⟩ := mem_located_of_mem (.module p) hmem
        obtain ⟨type, name, desc, hfilter⟩ := hincludes.aliases (.module p, env.source p)
          (.inr ⟨p, hp, rfl⟩) node hnode path importAlias isSelective symbols hstmt
        have hdecl : aliasDecl node.loc importAlias type name desc ∈
            out.filter (·.loc.file = .module p) := by
          refine List.mem_filter.mpr ⟨?_, decide_eq_true (ModuleEnv.mem_located hnode).1⟩
          exact List.mem_of_mem_filter (hfilter ▸ List.mem_singleton_self _)
        rw [filter_of_expands h] at hdecl
        split at hdecl
        · have heq := ModuleEnv.eq_of_loc (List.mem_of_mem_filter hdecl) hnode rfl
          have hkind := congrArg (·.stmt) heq
          rw [hstmt] at hkind
          cases hkind
        · cases hdecl

end Whole

/-- **The program contains the modules if and only if it names them itself.** -/
theorem includesModules_iff {n : ℕ} {stmts : ASTStmtList} {out : LinkedList}
    (h : (preprocessEntry env casts n stmts).result .init = .ok out) :
    ∃ nodes, ((preprocessEntry env casts n stmts).final .init).heap.nodes out = some nodes ∧
      (IncludesModules env stmts (nodes.map (·.2)) ↔ NamesModules env stmts) := by
  have hholds := holds_preprocessEntry env casts (D := True) n stmts
    fun p _ => sound_preprocessModule n p
  rw [h] at hholds
  obtain ⟨nodes, hrep, hexpands⟩ := hholds
  exact ⟨nodes, hrep.nodes_eq, namesModules_of_includesModules hexpands,
    includesModules_of_namesModules hexpands⟩

/-! ### Two programs -/

/-- `import "m" as mod`. -/
def importAsMod : ASTStmt :=
  .importStmt "m".toList (some "mod".toList) false []

/-- A module that imports nothing. -/
def oneModule : ModuleEnv where
  files := [("./m.bread".toList, some (exportedConstant "x" 1))]
  searchPaths := [".".toList]

/-- A program that imports one module, under an alias, contains it. -/
theorem oneModule_includesModules :
    ∃ nodes, ((preprocessEntry oneModule noCasts 5 [importAsMod]).final .init).heap.nodes
        ⟨some 1, some 3⟩ = some nodes ∧
      IncludesModules oneModule [importAsMod] (nodes.map (·.2)) := by
  have hresult : (preprocessEntry oneModule noCasts 5 [importAsMod]).result .init =
      .ok ⟨some 1, some 3⟩ := by
    decide +kernel
  obtain ⟨nodes, hnodes, hiff⟩ := includesModules_iff hresult
  have hreach : ∀ p, oneModule.Reachable [importAsMod] p → p = "./m.bread".toList := fun p hp =>
    List.mem_singleton.mp
      (ModuleEnv.mem_of_reachable ["./m.bread".toList] (by decide +kernel) (by decide +kernel) hp)
  refine ⟨nodes, hnodes, hiff.mpr ⟨fun p hp _ => ?_, fun p q hp himports _ _ => ?_, ?_⟩⟩
  · rw [hreach p hp]
    decide +kernel
  · have hmem := oneModule.mem_importsOf.mpr himports
    rw [hreach p hp, show oneModule.importsOf _ _ = [] by decide +kernel] at hmem
    cases hmem
  · rintro p hp path importAlias isSelective symbols hmem
    rw [hreach p hp, show oneModule.source _ = exportedConstant "x" 1 by rfl] at hmem
    simp [exportedConstant] at hmem

/-- A module that imports a module. -/
def nestedModules : ModuleEnv where
  files := [("./a.bread".toList, some (importOf "b" :: exportedConstant "x" 1)),
    ("./b.bread".toList, some (exportedConstant "y" 2))]
  searchPaths := [".".toList]

namespace nestedModules

theorem mem_of_reachable {p : FilePath} (h : nestedModules.Reachable [importOf "a"] p) :
    p ∈ ["./a.bread".toList, "./b.bread".toList] :=
  ModuleEnv.mem_of_reachable _ (by decide +kernel) (by decide +kernel) h

theorem not_hasCycle : ¬ nestedModules.HasCycle [importOf "a"] := by
  refine ModuleEnv.not_hasCycle_of_rank (fun p => if p = "./a.bread".toList then 1 else 0)
    fun p q hp himports => ?_
  have hrank : ∀ p ∈ ["./a.bread".toList, "./b.bread".toList],
      ∀ q ∈ nestedModules.importsOf (some (dirname p)) (nestedModules.source p),
        (if q = "./a.bread".toList then 1 else 0) < if p = "./a.bread".toList then 1 else 0 := by
    decide +kernel
  exact hrank p (mem_of_reachable hp) q (nestedModules.mem_importsOf.mpr himports)

end nestedModules

/-- The statements of a module that only a module imports are lost. -/
theorem nested_module_lost :
    ¬ nestedModules.HasCycle [importOf "a"] ∧
    (∀ p, nestedModules.Reachable [importOf "a"] p →
      ∃ symbol, ASTStmt.exportStmt true [symbol] ∈ nestedModules.source p) ∧
    ∃ out nodes,
      (preprocessEntry nestedModules noCasts 5 [importOf "a"]).result .init = .ok out ∧
      ((preprocessEntry nestedModules noCasts 5 [importOf "a"]).final .init).heap.nodes out =
        some nodes ∧
      ¬ IncludesModules nestedModules [importOf "a"] (nodes.map (·.2)) := by
  refine ⟨nestedModules.not_hasCycle, fun p hp => ?_, ⟨some 2, some 2⟩, ?_⟩
  · rcases List.mem_cons.mp (nestedModules.mem_of_reachable hp) with rfl | hp
    · exact ⟨("x".toList, none), List.mem_cons_of_mem _ (List.mem_cons_of_mem _ List.mem_cons_self)⟩
    · obtain rfl := List.mem_singleton.mp hp
      exact ⟨("y".toList, none), List.mem_cons_of_mem _ List.mem_cons_self⟩
  · have hlocs : (((preprocessEntry nestedModules noCasts 5 [importOf "a"]).final .init).heap.nodes
        ⟨some 2, some 2⟩).map (·.map (·.2.loc)) = some [⟨.module "./a.bread".toList, 1⟩] := by
      decide +kernel
    obtain ⟨nodes, hnodes, hlocs⟩ := Option.map_eq_some_iff.mp hlocs
    refine ⟨nodes, by decide +kernel, hnodes, fun hincludes => ?_⟩
    have hb : nestedModules.Reachable [importOf "a"] "./b.bread".toList := by
      refine ⟨"./a.bread".toList, nestedModules.mem_importsOf.mp (by decide +kernel), .single ?_⟩
      exact nestedModules.mem_importsOf.mp (by decide +kernel)
    have hsub := (hincludes.ordered _ hb).map (·.loc)
    have hplain : (nestedModules.plain "./b.bread".toList).map (·.loc) =
        [⟨.module "./b.bread".toList, 0⟩] := by
      rfl
    rw [List.map_map] at hsub
    rw [hplain] at hsub
    have hmem := List.mem_singleton.mp (hlocs ▸ hsub.subset List.mem_cons_self)
    revert hmem
    decide +kernel

end BreadLang
