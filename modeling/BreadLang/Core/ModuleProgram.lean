import BreadLang.Core.ModuleRun

/-!
# The run of the pass on a program

What one turn of the loop of `module_preprocess_program` does to the two lists it
works on, and from it what the whole loop does.  Three lists of nodes share the
heap: the statements of the program that are still to come, the new list, and the
statements of each module that has been compiled and not been included.  They are
kept apart by the file that a statement comes from.

`Expands` is the new list as a list of statements: the statements of the program,
with each import replaced.
-/

namespace BreadLang

open Stateful ModuleM

variable {env : ModuleEnv} {casts : NumericCasts}

/-! ### An import of the program -/

theorem triple_trivial {α : Type} {P : ModuleState → Prop} (m : ModuleM α) :
    Triple P m (fun _ _ => True) (fun _ _ => True) := by
  intro s _
  cases m.result s <;> trivial

/-- Whether a module has been preprocessed. -/
def ModuleState.preprocessed (s : ModuleState) (p : FilePath) : Bool :=
  (s.modules p).elim false (·.isPreprocessed)

theorem triple_markPreprocessed {P : ModuleState → Prop} (p : FilePath) :
    Triple P (updateModule p fun m => { m with isPreprocessed := true })
      (fun _ s => s.preprocessed p = true) (fun _ _ => True) := by
  intro s _
  cases hm : s.modules p with
  | none =>
      unfold updateModule ModuleM.module
      rw [bind_assoc, result_get_bind, final_get_bind, hm]
      exact trivial
  | some m =>
      have hrun := run_updateModule hm fun m => { m with isPreprocessed := true }
      rw [hrun.1, hrun.2]
      show (Option.elim _ _ _ : Bool) = true
      rw [ModuleState.modules_setModule_self]
      rfl

variable (env casts) in
/-- A module is marked when it has been preprocessed. -/
theorem triple_preprocessModule (n : ℕ) (p : FilePath) :
    Triple (fun _ => True) (preprocessModule env casts n p)
      (fun _ s => s.preprocessed p = true) (fun _ _ => True) := by
  cases n with
  | zero => exact triple_throw fun _ _ => trivial
  | succ n =>
      intro s _
      cases hm : s.modules p with
      | none =>
          unfold preprocessModule ModuleM.module
          rw [bind_assoc, result_get_bind, final_get_bind, hm]
          exact trivial
      | some m =>
          have hrun := run_module hm
          unfold preprocessModule
          rw [result_bind, final_bind, hrun.1, hrun.2]
          dsimp only
          cases hpre : m.isPreprocessed with
          | true =>
              show s.preprocessed p = true
              rw [ModuleState.preprocessed, hm]
              exact hpre
          | false =>
              simp only [Bool.false_eq_true, if_false]
              refine triple_bind (P := fun _ => True) (triple_trivial _) (fun _ => ?_) s trivial
              refine triple_bind (triple_trivial _) fun m => ?_
              cases m.ast with
              | none => exact triple_throw fun _ _ => trivial
              | some ast =>
                  exact triple_bind (triple_trivial _) fun _ => triple_markPreprocessed p

/-- **An import of the program that succeeds**: the module that the path means is there, it
has been preprocessed, and it has the default export. -/
theorem run_importModule {n : ℕ} {path : FilePath} {s : ModuleState}
    {r : FilePath × Ident × TypeDescriptor} (hgood : s.Good env)
    (h : (importModule env casts n path).result s = .ok r) :
    ModuleState.Inv env s ((importModule env casts n path).final s) ∧
      env.moduleResolvePath path none = .ok r.1 ∧
      ∃ m, ((importModule env casts n path).final s).modules r.1 = some m ∧
        m.isPreprocessed = true := by
  unfold importModule at h ⊢
  obtain ⟨p, hload, h⟩ := result_bind_eq_ok.mp h
  rw [final_bind_of_ok hload]
  obtain ⟨hresolve, hfinal⟩ := result_moduleLoad hload
  rw [hfinal] at h ⊢
  have hinv : ModuleState.Inv env s (s.load p path) := inv_load ⟨hgood, .refl s⟩ p path
  obtain ⟨⟨⟩, hpre, h⟩ := result_bind_eq_ok.mp h
  rw [final_bind_of_ok hpre]
  have hsound : Holds _ _ ((preprocessModule env casts n p).result _) _ :=
    sound_preprocessModule n p s _ hinv
  have hmark := triple_preprocessModule env casts n p (s.load p path) trivial
  rw [hpre] at hsound hmark
  generalize (preprocessModule env casts n p).final (s.load p path) = t at h hsound hmark ⊢
  change t.preprocessed p = true at hmark
  unfold ModuleState.preprocessed at hmark
  cases hm : t.modules p with
  | none =>
      rw [hm] at hmark
      cases hmark
  | some m =>
      rw [hm] at hmark
      have hrun := run_module hm
      rw [result_bind, hrun.1, hrun.2] at h
      rw [final_bind, hrun.1, hrun.2]
      dsimp only at h ⊢
      cases hname : m.defaultExportName with
      | none =>
          rw [hname] at h
          cases h
      | some name =>
          rw [hname] at h
          cases hdesc : m.defaultExportTypeDesc with
          | none =>
              rw [hdesc] at h
              cases h
          | some desc =>
              rw [hdesc] at h
              cases h
              exact ⟨hsound, hresolve, m, hm, hmark⟩

/-! ### Splicing a module -/

theorem ne_of_notMem {nodes : List (ℕ × StmtNode)} {a : ℕ} (ha : a ∉ nodes.map Prod.fst)
    {x : ℕ × StmtNode} (hx : x ∈ nodes) : x.1 ≠ a :=
  fun heq => ha (heq ▸ List.mem_map_of_mem hx)

/-- The nodes that `splice_module_into_program` moves. -/
def plainNodes (nodes : List (ℕ × StmtNode)) : List (ℕ × StmtNode) :=
  nodes.filter (·.2.isPlain)

/-- One statement of a module is moved behind a list, or freed. -/
theorem run_spliceStmt {s : ModuleState} {out : LinkedList} {done : List (ℕ × StmtNode)}
    {x : ℕ × StmtNode} {next : Option ℕ} (hr : s.heap.Represents out done)
    (hx : s.heap.cells x.1 = some ⟨x.2, next⟩) (hdone : x.1 ∉ done.map Prod.fst) :
    ∃ heap out', (spliceStmt out x).result s = .ok out' ∧
      (spliceStmt out x).final s = { s with heap } ∧
      heap.Represents out' (done ++ plainNodes [x]) ∧ s.heap.KeepsFreed heap ∧
      ∀ b, b ≠ x.1 → b ∉ done.map Prod.fst → heap.cells b = s.heap.cells b := by
  have hcell : (s.heap.setNext x.1 none).cells x.1 = some ⟨x.2, none⟩ := by
    rw [NodeHeap.cells_setNext_self, hx]
    rfl
  have hne : ∀ y ∈ done, y.1 ≠ x.1 := fun y => ne_of_notMem hdone
  have hr₁ : (s.heap.setNext x.1 none).Represents out done :=
    hr.congr fun y hy => NodeHeap.cells_setNext_of_ne _ _ (hne y hy)
  have hkeep := NodeHeap.keepsFreed_setNext s.heap x.1 none
  unfold spliceStmt
  cases hplain : x.2.isPlain with
  | true =>
      obtain ⟨heap, out', hresult, hfinal, hrep, hsize, hframe⟩ :=
        run_appendStmt (s := { s with heap := s.heap.setNext x.1 none }) hr₁ hcell hdone
      refine ⟨heap, out', hresult, hfinal, ?_, hkeep.trans ?_, fun b hb hbdone => ?_⟩
      · rwa [show plainNodes [x] = [x] by simp [plainNodes, hplain]]
      · exact hr₁.keepsFreed (NodeHeap.allocated_of_cell hcell) hsize hframe
      · rw [hframe b hb hbdone, NodeHeap.cells_setNext_of_ne _ _ hb]
  | false =>
      refine ⟨(s.heap.setNext x.1 none).free x.1, out, rfl, rfl, ?_,
        hkeep.trans (NodeHeap.keepsFreed_free _ _), fun b hb _ => ?_⟩
      · rw [show plainNodes [x] = [] by simp [plainNodes, hplain], List.append_nil]
        exact hr₁.congr fun y hy => NodeHeap.cells_free_of_ne _ (hne y hy)
      · rw [NodeHeap.cells_free_of_ne _ hb, NodeHeap.cells_setNext_of_ne _ _ hb]

/-- **The statements of a module are moved behind a list.**  The imports and the exports
among them are freed. -/
theorem run_spliceStmts (nodes : List (ℕ × StmtNode)) :
    ∀ {s : ModuleState} {out : LinkedList} {done : List (ℕ × StmtNode)},
      s.heap.Represents out done →
      (∀ x ∈ nodes, ∃ next, s.heap.cells x.1 = some ⟨x.2, next⟩) →
      (nodes.map Prod.fst).Nodup → (∀ x ∈ nodes, x.1 ∉ done.map Prod.fst) →
      ∃ heap out', (nodes.foldlM spliceStmt out).result s = .ok out' ∧
        (nodes.foldlM spliceStmt out).final s = { s with heap } ∧
        heap.Represents out' (done ++ plainNodes nodes) ∧ s.heap.KeepsFreed heap ∧
        ∀ b, b ∉ nodes.map Prod.fst → b ∉ done.map Prod.fst →
          heap.cells b = s.heap.cells b := by
  induction nodes with
  | nil =>
      intro s out done hr _ _ _
      exact ⟨s.heap, out, rfl, rfl, by rwa [plainNodes, List.filter_nil, List.append_nil], .refl _,
        fun _ _ _ => rfl⟩
  | cons x nodes ih =>
      intro s out done hr hcells hnodup hdisj
      obtain ⟨next, hx⟩ := hcells x List.mem_cons_self
      obtain ⟨hxnodes, hnodup⟩ := List.nodup_cons.mp hnodup
      have hne : ∀ y ∈ nodes, y.1 ≠ x.1 := fun y => ne_of_notMem hxnodes
      obtain ⟨heap₁, out₁, hresult₁, hfinal₁, hr₁, hkeep₁, hframe₁⟩ :=
        run_spliceStmt hr hx (hdisj x List.mem_cons_self)
      have hcells₁ : ∀ y ∈ nodes, ∃ next, heap₁.cells y.1 = some ⟨y.2, next⟩ := by
        intro y hy
        rw [hframe₁ y.1 (hne y hy) (hdisj y (List.mem_cons_of_mem _ hy))]
        exact hcells y (List.mem_cons_of_mem _ hy)
      have hmoved : ∀ b, b ∈ (plainNodes [x]).map Prod.fst → b = x.1 := by
        intro b hb
        obtain ⟨y, hy, rfl⟩ := List.mem_map.mp hb
        rw [List.mem_singleton.mp (List.mem_of_mem_filter hy)]
      have hdisj₁ : ∀ y ∈ nodes, y.1 ∉ (done ++ plainNodes [x]).map Prod.fst := by
        intro y hy hmem
        rw [List.map_append, List.mem_append] at hmem
        exact hmem.elim (hdisj y (List.mem_cons_of_mem _ hy)) fun h => hne y hy (hmoved _ h)
      obtain ⟨heap, out', hresult, hfinal, hrep, hkeep, hframe⟩ :=
        ih (s := { s with heap := heap₁ }) hr₁ hcells₁ hnodup hdisj₁
      refine ⟨heap, out', ?_, ?_, ?_, hkeep₁.trans hkeep, fun b hb hbdone => ?_⟩
      · rw [List.foldlM_cons]
        exact result_bind_eq_ok.mpr ⟨out₁, hresult₁, by rw [hfinal₁]; exact hresult⟩
      · rw [List.foldlM_cons, final_bind_of_ok hresult₁, hfinal₁, hfinal]
      · rwa [List.append_assoc, show plainNodes [x] ++ plainNodes nodes = plainNodes (x :: nodes) from
          (List.filter_append [x] nodes).symm] at hrep
      · rw [List.map_cons, List.mem_cons, not_or] at hb
        rw [hframe b hb.2 ?_, hframe₁ b hb.1 hbdone]
        rw [List.map_append, List.mem_append, not_or]
        exact ⟨hbdone, fun hmem => hb.1 (hmoved b hmem)⟩

/-! ### The lists of the loop -/

/-- A node that a module which has not been included still owns. -/
def ModuleState.Protected (s : ModuleState) (a : ℕ) : Prop :=
  ∃ node next q, s.heap.cells a = some ⟨node, next⟩ ∧ node.loc.file = .module q ∧
    s.included q = false

/-- A change of the heap outside the nodes of one module. -/
theorem Module.Good.frame {h heap : NodeHeap StmtNode} {p : FilePath} {m : Module}
    (hm : m.Good env h p) (hframe : ∀ a node next, h.cells a = some ⟨node, next⟩ →
      node.loc.file = .module p → m.isIncluded = false → heap.cells a = h.cells a) :
    m.Good env heap p := by
  refine ⟨hm.notLoading, hm.compiled, hm.preprocessed, fun hc hi => ?_⟩
  obtain ⟨list, nodes, hast, hr, hnodes⟩ := hm.ast hc hi
  refine ⟨list, nodes, hast, hr.congr fun x hx => ?_, hnodes⟩
  obtain ⟨next, hcell⟩ := hr.chain.val x hx
  have hloc : x.2 ∈ ModuleEnv.located (.module p) (env.source p) :=
    hnodes ▸ List.mem_map_of_mem hx
  exact hframe x.1 x.2 next hcell (ModuleEnv.mem_located hloc).1 hi

/-- A change of the heap outside the nodes of the modules. -/
theorem ModuleState.Good.heap {s : ModuleState} (hs : s.Good env) {heap : NodeHeap StmtNode}
    (hframe : ∀ a, s.Protected a → heap.cells a = s.heap.cells a) :
    ({ s with heap } : ModuleState).Good env := by
  intro p m hm
  refine (hs p m hm).frame fun a node next hcell hloc hi => hframe a ⟨node, next, p, hcell, hloc, ?_⟩
  rwa [included, show s.modules p = some m from hm]

/-- The node belongs to the entry file, or to a module that has been included. -/
def ModuleState.Released (s : ModuleState) (node : StmtNode) : Prop :=
  node.loc.file = .entry ∨ ∃ p, node.loc.file = .module p ∧ s.included p = true

theorem ModuleState.Released.notProtected {s : ModuleState} {node : StmtNode} {a : ℕ}
    {next : Option ℕ} (hnode : s.Released node) (hcell : s.heap.cells a = some ⟨node, next⟩) :
    ¬ s.Protected a := by
  rintro ⟨node', next', q, hcell', hloc, hi⟩
  obtain ⟨rfl, -⟩ := Node.mk.inj (Option.some.inj (hcell.symm.trans hcell'))
  rcases hnode with hentry | ⟨p, hp, hincluded⟩
  · rw [hentry] at hloc
    cases hloc
  · rw [hp] at hloc
    cases hloc
    rw [hi] at hincluded
    cases hincluded

/-- **The state of the loop of `module_preprocess_program`**: the statements `rest` of the
program are still to come, from the one at `next` on, and the new list `out` has the
nodes `done`. -/
structure ProgramInv (env : ModuleEnv) (s : ModuleState) (next : Option ℕ)
    (rest : List (ℕ × StmtNode)) (out : LinkedList) (done : List (ℕ × StmtNode)) : Prop where
  good : s.Good env
  restChain : s.heap.Chain next rest
  restNodup : (rest.map Prod.fst).Nodup
  restLoc : ∀ x ∈ rest, x.2.loc.file = .entry
  outList : s.heap.Represents out done
  doneLoc : ∀ x ∈ done, s.Released x.2
  disjoint : ∀ x ∈ rest, x.1 ∉ done.map Prod.fst

/-- A statement of the entry file that is in no list. -/
structure Held (s : ModuleState) (rest done : List (ℕ × StmtNode)) (a : ℕ) (v : StmtNode) :
    Prop where
  cell : ∃ next, s.heap.cells a = some ⟨v, next⟩
  loc : v.loc.file = .entry
  notRest : a ∉ rest.map Prod.fst
  notDone : a ∉ done.map Prod.fst

theorem Held.allocated {s : ModuleState} {rest done : List (ℕ × StmtNode)} {a : ℕ}
    {v : StmtNode} (h : Held s rest done a v) : s.heap.Allocated a :=
  h.cell.elim fun _ hcell => NodeHeap.allocated_of_cell hcell

theorem Held.notProtected {s : ModuleState} {rest done : List (ℕ × StmtNode)} {a : ℕ}
    {v : StmtNode} (h : Held s rest done a v) : ¬ s.Protected a := by
  obtain ⟨_, hcell⟩ := h.cell
  exact ModuleState.Released.notProtected (.inl h.loc) hcell

theorem Held.extends {s t : ModuleState} {rest done : List (ℕ × StmtNode)} {a : ℕ}
    {v : StmtNode} (h : Held s rest done a v) (ht : s.heap.Extends t.heap) :
    Held t rest done a v := by
  refine ⟨?_, h.loc, h.notRest, h.notDone⟩
  rw [ht.cells a (NodeHeap.lt_size_of_allocated h.allocated)]
  exact h.cell

namespace ProgramInv

variable {s t : ModuleState} {next : Option ℕ} {rest done : List (ℕ × StmtNode)}
  {out : LinkedList} {a : ℕ} {v : StmtNode}

/-- Preprocessing leaves the lists of the loop alone. -/
theorem preprocess (h : ProgramInv env s next rest out done) (ht : ModuleState.Inv env s t) :
    ProgramInv env t next rest out done where
  good := ht.good
  restChain := h.restChain.extends ht.ext.heap
  restNodup := h.restNodup
  restLoc := h.restLoc
  outList := h.outList.extends ht.ext.heap
  doneLoc x hx := (h.doneLoc x hx).imp id fun ⟨p, hp, hi⟩ =>
    ⟨p, hp, (ht.ext.included p).trans hi⟩
  disjoint := h.disjoint

/-- A change of the heap outside the three kinds of lists. -/
theorem heap (h : ProgramInv env s next rest out done) {heap : NodeHeap StmtNode}
    (hprotected : ∀ b, s.Protected b → heap.cells b = s.heap.cells b)
    (hrest : ∀ x ∈ rest, heap.cells x.1 = s.heap.cells x.1)
    (hdone : ∀ x ∈ done, heap.cells x.1 = s.heap.cells x.1) :
    ProgramInv env { s with heap } next rest out done where
  good := h.good.heap hprotected
  restChain := h.restChain.congr hrest
  restNodup := h.restNodup
  restLoc := h.restLoc
  outList := h.outList.congr hdone
  doneLoc := h.doneLoc
  disjoint := h.disjoint

theorem not_protected_of_mem_done (h : ProgramInv env s next rest out done) {x : ℕ × StmtNode}
    (hx : x ∈ done) : ¬ s.Protected x.1 := by
  obtain ⟨_, hcell⟩ := h.outList.chain.val x hx
  exact (h.doneLoc x hx).notProtected hcell

/-- The next statement is taken off the program. -/
theorem unlink (h : ProgramInv env s (some a) ((a, v) :: rest) out done) :
    ∃ next, s.heap.cells a = some ⟨v, next⟩ ∧
      ProgramInv env { s with heap := s.heap.setNext a none } next rest out done ∧
      Held { s with heap := s.heap.setNext a none } rest done a v := by
  obtain ⟨-, next, hcell, hrest⟩ := h.restChain
  obtain ⟨hnotRest, hnodup⟩ := List.nodup_cons.mp h.restNodup
  have hheld : Held s rest done a v :=
    ⟨⟨next, hcell⟩, h.restLoc (a, v) List.mem_cons_self, hnotRest,
      h.disjoint (a, v) List.mem_cons_self⟩
  have hinv : ProgramInv env s next rest out done :=
    { h with
      restChain := hrest
      restNodup := hnodup
      restLoc := fun x hx => h.restLoc x (List.mem_cons_of_mem _ hx)
      disjoint := fun x hx => h.disjoint x (List.mem_cons_of_mem _ hx) }
  refine ⟨next, hcell, hinv.heap (fun b hb => ?_) (fun x hx => ?_) fun x hx => ?_, ?_⟩
  · exact NodeHeap.cells_setNext_of_ne _ _ fun heq => hheld.notProtected (heq ▸ hb)
  · exact NodeHeap.cells_setNext_of_ne _ _ (ne_of_notMem hheld.notRest hx)
  · exact NodeHeap.cells_setNext_of_ne _ _ (ne_of_notMem hheld.notDone hx)
  · refine ⟨⟨none, ?_⟩, hheld.loc, hheld.notRest, hheld.notDone⟩
    rw [NodeHeap.cells_setNext_self, hcell]
    rfl

/-- A statement is put behind the new list. -/
theorem append (h : ProgramInv env s next rest out done) (hheld : Held s rest done a v) :
    ∃ heap out', (appendStmt out a).result s = .ok out' ∧
      (appendStmt out a).final s = { s with heap } ∧ s.heap.KeepsFreed heap ∧
      ProgramInv env { s with heap } next rest out' (done ++ [(a, v)]) ∧
      ∀ b w, b ≠ a → Held s rest done b w →
        Held { s with heap } rest (done ++ [(a, v)]) b w := by
  obtain ⟨nx, hcell⟩ := hheld.cell
  obtain ⟨heap, out', hresult, hfinal, hr, hsize, hframe⟩ :=
    run_appendStmt h.outList hcell hheld.notDone
  refine ⟨heap, out', hresult, hfinal, h.outList.keepsFreed hheld.allocated hsize hframe, ?_, ?_⟩
  · refine ⟨h.good.heap fun b hb => hframe b ?_ ?_, h.restChain.congr fun x hx => hframe _ ?_ ?_,
      h.restNodup, h.restLoc, hr, fun x hx => ?_, fun x hx hmem => ?_⟩
    · exact fun heq => hheld.notProtected (heq ▸ hb)
    · intro hmem
      obtain ⟨x, hx, rfl⟩ := List.mem_map.mp hmem
      exact h.not_protected_of_mem_done hx hb
    · exact ne_of_notMem hheld.notRest hx
    · exact h.disjoint x hx
    · rcases List.mem_append.mp hx with hx | hx
      · exact h.doneLoc x hx
      · rw [List.mem_singleton.mp hx]
        exact .inl hheld.loc
    · rw [List.map_append, List.mem_append] at hmem
      exact hmem.elim (h.disjoint x hx) fun heq =>
        ne_of_notMem hheld.notRest hx (List.mem_singleton.mp heq)
  · intro b w hne hb
    refine ⟨?_, hb.loc, hb.notRest, ?_⟩
    · show ∃ next, heap.cells b = some ⟨w, next⟩
      rw [hframe b hne hb.notDone]
      exact hb.cell
    · rw [List.map_append, List.mem_append, not_or]
      exact ⟨hb.notDone, fun heq => hne (List.mem_singleton.mp heq)⟩

/-- A statement that is in no list is freed. -/
theorem free (h : ProgramInv env s next rest out done) (hheld : Held s rest done a v) :
    ProgramInv env { s with heap := s.heap.free a } next rest out done := by
  refine h.heap (fun b hb => ?_) (fun x hx => ?_) fun x hx => ?_
  · exact NodeHeap.cells_free_of_ne _ fun heq => hheld.notProtected (heq ▸ hb)
  · exact NodeHeap.cells_free_of_ne _ (ne_of_notMem hheld.notRest hx)
  · exact NodeHeap.cells_free_of_ne _ (ne_of_notMem hheld.notDone hx)

/-- A declaration is put behind the new list. -/
theorem declare (h : ProgramInv env s next rest out done) (hheld : Held s rest done a v)
    {decl : StmtNode} (hloc : decl.loc.file = .entry) :
    ∃ heap out', (newStmt decl >>= appendStmt out).result s = .ok out' ∧
      (newStmt decl >>= appendStmt out).final s = { s with heap } ∧ s.heap.KeepsFreed heap ∧
      ProgramInv env { s with heap } next rest out' (done ++ [(s.heap.size, decl)]) ∧
      Held { s with heap } rest (done ++ [(s.heap.size, decl)]) a v := by
  have hext := NodeHeap.extends_alloc s.heap decl
  have hlt : ∀ x ∈ rest ++ done, x.1 < s.heap.size := by
    intro x hx
    refine NodeHeap.lt_size_of_allocated ?_
    exact (List.mem_append.mp hx).elim (h.restChain.allocated x) (h.outList.chain.allocated x)
  have hnew : Held { s with heap := s.heap.alloc decl } rest done s.heap.size decl := by
    refine ⟨⟨none, NodeHeap.cells_alloc_self ..⟩, hloc, fun hmem => ?_, fun hmem => ?_⟩
    · obtain ⟨x, hx, heq⟩ := List.mem_map.mp hmem
      exact (hlt x (List.mem_append_left _ hx)).ne heq
    · obtain ⟨x, hx, heq⟩ := List.mem_map.mp hmem
      exact (hlt x (List.mem_append_right _ hx)).ne heq
  have hinv : ProgramInv env { s with heap := s.heap.alloc decl } next rest out done :=
    h.preprocess ⟨fun p m hm => (h.good p m hm).extends hext, hext, fun _ => rfl, fun _ hc => hc⟩
  obtain ⟨heap, out', hresult, hfinal, hkeep, hinv', hheld'⟩ := hinv.append hnew
  refine ⟨heap, out', hresult, hfinal, hext.keepsFreed.trans hkeep, hinv', hheld' a v ?_ ?_⟩
  · exact (NodeHeap.lt_size_of_allocated hheld.allocated).ne
  · exact hheld.extends (t := { s with heap := s.heap.alloc decl }) hext

/-- The state after a module has been included. -/
def includeModule (s : ModuleState) (heap : NodeHeap StmtNode) (p : FilePath) (m : Module) :
    ModuleState :=
  { s with heap }.setModule p { m with ast := some .empty, isIncluded := true }

theorem included_includeModule (s : ModuleState) (heap : NodeHeap StmtNode) (p q : FilePath)
    (m : Module) : (includeModule s heap p m).included q = (q == p || s.included q) := by
  unfold includeModule ModuleState.included
  by_cases heq : q = p
  · subst heq
    rw [ModuleState.modules_setModule_self]
    simp
  · rw [ModuleState.modules_setModule_of_ne _ _ heq]
    simp [heq]

/-- **A module is spliced into the new list.**  Its nodes are told from those of the other
lists by the file they come from. -/
theorem splice (h : ProgramInv env s next rest out done) {p : FilePath} {m : Module}
    (hm : s.modules p = some m) (hpre : m.isPreprocessed = true) (hi : s.included p = false) :
    ∃ heap out' nodes, (spliceModuleIntoProgram out p).result s = .ok out' ∧
      (spliceModuleIntoProgram out p).final s = includeModule s heap p m ∧
      s.heap.KeepsFreed heap ∧
      nodes.map (·.2) = ModuleEnv.located (.module p) (env.source p) ∧
      ProgramInv env (includeModule s heap p m) next rest out' (done ++ plainNodes nodes) ∧
      ∀ b w, Held s rest done b w →
        Held (includeModule s heap p m) rest (done ++ plainNodes nodes) b w := by
  have hgood := h.good p m hm
  have hmi : m.isIncluded = false := by rwa [ModuleState.included, hm] at hi
  obtain ⟨list, nodes, hast, hr, hnodes⟩ := hgood.ast (hgood.compiled hpre) hmi
  have hcells := hr.chain.val
  have hloc : ∀ x ∈ nodes, x.2.loc.file = .module p := fun x hx =>
    (ModuleEnv.mem_located (hnodes ▸ List.mem_map_of_mem hx)).1
  -- an address of a node from another file is not one of these nodes
  have hapart : ∀ a node nx, s.heap.cells a = some ⟨node, nx⟩ → node.loc.file ≠ .module p →
      a ∉ nodes.map Prod.fst := by
    intro a node nx hcell hne hmem
    obtain ⟨x, hx, rfl⟩ := List.mem_map.mp hmem
    obtain ⟨nx', hx'⟩ := hcells x hx
    rw [hcell] at hx'
    obtain ⟨rfl, -⟩ := Node.mk.inj (Option.some.inj hx')
    exact hne (hloc x hx)
  have hdisj : ∀ x ∈ nodes, x.1 ∉ done.map Prod.fst := by
    intro x hx hmem
    obtain ⟨y, hy, heq⟩ := List.mem_map.mp hmem
    obtain ⟨nx, hcell⟩ := hcells x hx
    refine h.not_protected_of_mem_done hy (heq ▸ ?_)
    exact ⟨x.2, nx, p, hcell, hloc x hx, hi⟩
  obtain ⟨heap, out', hresult, hfinal, hrep, hkeep, hframe⟩ :=
    run_spliceStmts nodes h.outList hcells hr.nodup hdisj
  have hread := run_readList hr
  have hupdate := run_updateModule (s := { s with heap }) hm
    fun m => { m with ast := some .empty, isIncluded := true }
  have hrun := run_module hm
  have hrest : ∀ x ∈ rest, x.1 ∉ nodes.map Prod.fst := by
    intro x hx
    obtain ⟨nx, hcell⟩ := h.restChain.val x hx
    exact hapart x.1 x.2 nx hcell (by rw [h.restLoc x hx]; exact SourceFile.noConfusion)
  have hplain : ∀ b, b ∉ nodes.map Prod.fst → b ∉ (plainNodes nodes).map Prod.fst := by
    intro b hb hmem
    obtain ⟨y, hy, rfl⟩ := List.mem_map.mp hmem
    exact hb (List.mem_map_of_mem (List.mem_of_mem_filter hy))
  refine ⟨heap, out', nodes, ?_, ?_, hkeep, hnodes, ?_, ?_⟩
  · unfold spliceModuleIntoProgram
    rw [result_bind, hrun.1, hrun.2]
    dsimp only
    rw [hast]
    dsimp only
    rw [result_bind, hread.1, hread.2]
    dsimp only
    rw [result_bind, hresult, hfinal]
    dsimp only
    rw [result_bind, hupdate.1]
    rfl
  · unfold spliceModuleIntoProgram
    rw [final_bind, hrun.1, hrun.2]
    dsimp only
    rw [hast]
    dsimp only
    rw [final_bind, hread.1, hread.2]
    dsimp only
    rw [final_bind, hresult, hfinal]
    dsimp only
    rw [final_bind, hupdate.1, hupdate.2]
    rfl
  · refine ⟨fun q n hn => ?_, ?_, h.restNodup, h.restLoc, hrep, fun x hx => ?_, fun x hx hmem => ?_⟩
    · by_cases heq : q = p
      · subst heq
        obtain rfl := Option.some.inj ((ModuleState.modules_setModule_self ..).symm.trans hn)
        exact ⟨hgood.notLoading, hgood.compiled, fun _ => hpre, fun _ hfalse => by cases hfalse⟩
      · rw [includeModule, ModuleState.modules_setModule_of_ne _ _ heq] at hn
        refine (h.good q n hn).frame fun a node nx hcell hfile hni => hframe a ?_ fun hmem => ?_
        · exact hapart a node nx hcell fun hfile' => heq (by cases hfile.symm.trans hfile'; rfl)
        · obtain ⟨y, hy, rfl⟩ := List.mem_map.mp hmem
          refine h.not_protected_of_mem_done hy ⟨node, nx, q, hcell, hfile, ?_⟩
          rwa [ModuleState.included, hn]
    · exact h.restChain.congr fun x hx => hframe _ (hrest x hx) (h.disjoint x hx)
    · rcases List.mem_append.mp hx with hx | hx
      · rcases h.doneLoc x hx with hentry | ⟨q, hq, hincluded⟩
        · exact .inl hentry
        · refine .inr ⟨q, hq, ?_⟩
          rw [included_includeModule, hincluded, Bool.or_true]
      · refine .inr ⟨p, hloc x (List.mem_of_mem_filter hx), ?_⟩
        rw [included_includeModule, beq_self_eq_true, Bool.true_or]
    · rw [List.map_append, List.mem_append] at hmem
      exact hmem.elim (h.disjoint x hx) (hplain _ (hrest x hx))
  · intro b w hb
    obtain ⟨nx, hcell⟩ := hb.cell
    have hnotNode := hapart b w nx hcell (by rw [hb.loc]; exact SourceFile.noConfusion)
    refine ⟨⟨nx, ?_⟩, hb.loc, hb.notRest, ?_⟩
    · exact (hframe b hnotNode hb.notDone).trans hcell
    · rw [List.map_append, List.mem_append, not_or]
      exact ⟨hb.notDone, hplain b hnotNode⟩

end ProgramInv

/-! ### One turn -/

section OnError

variable {α : Type} {m : ModuleM α} {handler : ModuleM Unit} {s : ModuleState}

theorem run_onError_ok (handler : ModuleM Unit) {a : α} (h : m.result s = .ok a) :
    (onError m handler).result s = .ok a ∧ (onError m handler).final s = m.final s := by
  have hrun : m.run.run s = (.ok a, m.final s) := Prod.ext h rfl
  unfold onError result final
  simp only [ExceptT.run_mk, StateT.run] at hrun ⊢
  rw [hrun]
  exact ⟨rfl, rfl⟩

theorem run_onError_error {e : ModuleError} (h : m.result s = .error (.error e))
    (hhandler : handler.result (m.final s) = .ok ()) :
    (onError m handler).result s = .error (.error e) ∧
      (onError m handler).final s = handler.final (m.final s) := by
  have hrun : m.run.run s = (.error (.error e), m.final s) := Prod.ext h rfl
  have hfail := result_bind handler (fun _ => fail e : Unit → ModuleM α) (m.final s)
  have hstay := final_bind handler (fun _ => fail e : Unit → ModuleM α) (m.final s)
  rw [hhandler] at hfail hstay
  unfold onError result final at *
  simp only [ExceptT.run_mk, StateT.run] at *
  rw [hrun]
  exact ⟨hfail, hstay⟩

theorem run_onError_other (handler : ModuleM Unit) {e : ModuleFail} (h : m.result s = .error e)
    (hother : ∀ e', e ≠ .error e') :
    (onError m handler).result s = .error e ∧ (onError m handler).final s = m.final s := by
  have hrun : m.run.run s = (.error e, m.final s) := Prod.ext h rfl
  unfold onError result final
  simp only [ExceptT.run_mk, StateT.run] at hrun ⊢
  rw [hrun]
  cases e with
  | error e => exact absurd rfl (hother e)
  | stopped s => exact ⟨rfl, rfl⟩
  | diverges => exact ⟨rfl, rfl⟩

end OnError

/-- What an import with an alias declares, and one without. -/
def IsAliasDecl (loc : SourceLoc) : Option Ident → List StmtNode → Prop
  | none, decls => decls = []
  | some importAlias, decls =>
      ∃ type name desc, decls = [aliasDecl loc importAlias type name desc]

/-- The statements of a module that stay in the program. -/
def ModuleEnv.plain (env : ModuleEnv) (p : FilePath) : List StmtNode :=
  (ModuleEnv.located (.module p) (env.source p)).filter (·.isPlain)

/-- **What a statement of the program is replaced by**, and the modules that have been
included before and after it. -/
def Expansion (env : ModuleEnv) (included : FilePath → Bool) (node : StmtNode)
    (new : List StmtNode) (included' : FilePath → Bool) : Prop :=
  match node.stmt with
  | .importStmt path importAlias _ _ =>
      ∃ p decls, env.moduleResolvePath path none = .ok p ∧
        IsAliasDecl node.loc importAlias decls ∧
        new = (if included p then [] else env.plain p) ++ decls ∧
        included' = fun q => q == p || included q
  | .exportStmt _ _ => new = [] ∧ included' = included
  | _ => new = [node] ∧ included' = included

theorem plainNodes_map {nodes : List (ℕ × StmtNode)} {p : FilePath}
    (h : nodes.map (·.2) = ModuleEnv.located (.module p) (env.source p)) :
    (plainNodes nodes).map (·.2) = env.plain p := by
  rw [ModuleEnv.plain, ← h, List.filter_map]
  rfl

section Import

variable {s : ModuleState} {next : Option ℕ} {rest done : List (ℕ × StmtNode)}
  {out : LinkedList} {a n : ℕ} {v : StmtNode}

/-- The module of an import is included unless it has been. -/
theorem run_includeOnce (h : ProgramInv env s next rest out done) (hheld : Held s rest done a v)
    {p : FilePath} {m : Module} (hm : s.modules p = some m) (hpre : m.isPreprocessed = true) :
    ∃ t out' new, (includeOnce out p m.isIncluded).result s = .ok out' ∧
      (includeOnce out p m.isIncluded).final s = t ∧
      ProgramInv env t next rest out' (done ++ new) ∧ Held t rest (done ++ new) a v ∧
      s.heap.KeepsFreed t.heap ∧
      new.map (·.2) = (if s.included p then [] else env.plain p) ∧
      t.included = fun q => q == p || s.included q := by
  have hi : s.included p = m.isIncluded := by rw [ModuleState.included, hm]; rfl
  rw [hi]
  cases hmi : m.isIncluded with
  | true =>
      refine ⟨s, out, [], rfl, rfl, by rwa [List.append_nil], by rwa [List.append_nil], .refl _,
        rfl, funext fun q => ?_⟩
      by_cases heq : q = p
      · rw [heq, hi, hmi, Bool.or_true]
      · simp [heq]
  | false =>
      obtain ⟨heap, out', nodes, hresult, hfinal, hkeep, hnodes, hinv, hheld'⟩ :=
        h.splice hm hpre (hi.trans hmi)
      exact ⟨_, out', plainNodes nodes, hresult, hfinal, hinv, hheld' a v hheld, hkeep,
        plainNodes_map hnodes, funext fun q => ProgramInv.included_includeModule s heap p q m⟩

/-- The constant of an import is declared if it has an alias. -/
theorem run_declareAlias (h : ProgramInv env s next rest out done) (hheld : Held s rest done a v)
    (importAlias : Option Ident) (type : VarType) (name : Ident) (desc : TypeDescriptor) :
    ∃ t out' new, (declareAlias out v.loc importAlias type name desc).result s = .ok out' ∧
      (declareAlias out v.loc importAlias type name desc).final s = t ∧
      ProgramInv env t next rest out' (done ++ new) ∧ Held t rest (done ++ new) a v ∧
      s.heap.KeepsFreed t.heap ∧ IsAliasDecl v.loc importAlias (new.map (·.2)) ∧
      t.included = s.included := by
  cases importAlias with
  | none =>
      exact ⟨s, out, [], rfl, rfl, by rwa [List.append_nil], by rwa [List.append_nil], .refl _, rfl,
        rfl⟩
  | some importAlias =>
      have hloc : (aliasDecl v.loc importAlias type name desc).loc.file = .entry := hheld.loc
      obtain ⟨heap, out', hresult, hfinal, hkeep, hinv, hheld'⟩ := h.declare hheld hloc
      exact ⟨_, out', _, hresult, hfinal, hinv, hheld', hkeep, ⟨type, name, desc, rfl⟩, rfl⟩

/-- **An import of the program whose module can be imported.** -/
theorem run_includeImport_ok (h : ProgramInv env s next rest out done)
    (hheld : Held s rest done a v) {path : FilePath} {importAlias : Option Ident}
    {isSelective : Bool} {symbols : List (Ident × Option Ident)}
    (hstmt : v.stmt = .importStmt path importAlias isSelective symbols)
    {r : FilePath × Ident × TypeDescriptor}
    (hr : (importModule env casts n path).result s = .ok r) :
    ∃ t out' new, (includeImport env casts n out a v.loc path importAlias).result s = .ok out' ∧
      (includeImport env casts n out a v.loc path importAlias).final s = t ∧
      ProgramInv env t next rest out' (done ++ new) ∧ s.heap.KeepsFreed t.heap ∧
      Expansion env s.included v (new.map (·.2)) t.included ∧ t.heap.cells a = none := by
  obtain ⟨hinv, hresolve, m, hm, hpre⟩ := run_importModule h.good hr
  have hcall := run_onError_ok (freeStmt a >>= fun _ => freeStmtList out) hr
  generalize (importModule env casts n path).final s = s₁ at hinv hm hcall
  have hheld₁ := hheld.extends hinv.ext.heap
  obtain ⟨s₂, out₂, new₂, hresult₂, hfinal₂, hinv₂, hheld₂, hkeep₂, hnew₂, hincl₂⟩ :=
    run_includeOnce (h.preprocess hinv) hheld₁ hm hpre
  obtain ⟨s₃, out₃, new₃, hresult₃, hfinal₃, hinv₃, hheld₃, hkeep₃, hdecl, hincl₃⟩ :=
    run_declareAlias hinv₂ hheld₂ importAlias m.defaultExportType r.2.1 r.2.2
  have hrun := run_module hm
  have hbody : (includeImport env casts n out a v.loc path importAlias).result s = .ok out₃ ∧
      (includeImport env casts n out a v.loc path importAlias).final s =
        { s₃ with heap := s₃.heap.free a } := by
    unfold includeImport
    rw [result_bind, final_bind, hcall.1, hcall.2]
    dsimp only
    rw [result_bind, final_bind, hrun.1, hrun.2]
    dsimp only
    rw [result_bind, final_bind, hresult₂, hfinal₂]
    dsimp only
    rw [result_bind, final_bind, hresult₃, hfinal₃]
    exact ⟨rfl, rfl⟩
  refine ⟨_, out₃, new₂ ++ new₃, hbody.1, hbody.2, ?_, ?_, ?_, NodeHeap.cells_free_self ..⟩
  · rw [← List.append_assoc]
    exact hinv₃.free hheld₃
  · exact ((hinv.ext.heap.keepsFreed.trans hkeep₂).trans hkeep₃).trans
      (NodeHeap.keepsFreed_free _ _)
  · unfold Expansion
    rw [hstmt]
    have hincluded : s₁.included = s.included := funext hinv.ext.included
    refine ⟨r.1, new₃.map (·.2), hresolve, hdecl, ?_, ?_⟩
    · rw [List.map_append, hnew₂, hincluded]
    · rw [← hincluded, ← hincl₂]
      exact hincl₃

/-- What an import frees before it fails. -/
theorem run_handler (h : ProgramInv env s next rest out done) (hheld : Held s rest done a v) :
    (freeStmt a >>= fun _ => freeStmtList out).result s = .ok () ∧
      (freeStmt a >>= fun _ => freeStmtList out).final s =
        { s with heap := (s.heap.free a).freeAll (done.map (·.1)) } := by
  have hread := run_readList (h.free hheld).outList
  have hlist : (freeStmtList out).result { s with heap := s.heap.free a } = .ok () ∧
      (freeStmtList out).final { s with heap := s.heap.free a } =
        { s with heap := (s.heap.free a).freeAll (done.map (·.1)) } := by
    unfold freeStmtList
    rw [result_bind, final_bind, hread.1, hread.2]
    exact ⟨rfl, rfl⟩
  exact hlist

/-- **An import of the program that fails**: the statement and the new list are freed. -/
theorem run_includeImport_error (h : ProgramInv env s next rest out done)
    (hheld : Held s rest done a v) {path : FilePath} (importAlias : Option Ident) {e : ModuleFail}
    (hr : (importModule env casts n path).result s = .error e)
    (hinv : ModuleState.Inv env s ((importModule env casts n path).final s)) :
    (includeImport env casts n out a v.loc path importAlias).result s = .error e ∧
      ∀ e', e = .error e' →
        s.heap.KeepsFreed ((includeImport env casts n out a v.loc path importAlias).final s).heap ∧
        ∀ b, b = a ∨ b ∈ done.map (·.1) →
          ((includeImport env casts n out a v.loc path importAlias).final s).heap.cells b =
            none := by
  have hhandler := run_handler (h.preprocess hinv) (hheld.extends hinv.ext.heap)
  unfold includeImport
  cases e with
  | error e =>
      have hcall := run_onError_error hr hhandler.1
      rw [result_bind, final_bind, hcall.1, hcall.2, hhandler.2]
      refine ⟨rfl, fun _ _ => ⟨?_, fun b hb => ?_⟩⟩
      · exact (hinv.ext.heap.keepsFreed.trans (NodeHeap.keepsFreed_free _ _)).trans
          (NodeHeap.keepsFreed_freeAll _ _)
      · by_cases hmem : b ∈ done.map (·.1)
        · exact NodeHeap.cells_freeAll hmem
        · rw [NodeHeap.cells_freeAll_of_notMem hmem, hb.resolve_right hmem,
            NodeHeap.cells_free_self]
  | stopped stop =>
      have hcall := run_onError_other (freeStmt a >>= fun _ => freeStmtList out) hr
        fun _ h => by cases h
      rw [result_bind, final_bind, hcall.1]
      exact ⟨rfl, fun _ h => by cases h⟩
  | diverges =>
      have hcall := run_onError_other (freeStmt a >>= fun _ => freeStmtList out) hr
        fun _ h => by cases h
      rw [result_bind, final_bind, hcall.1]
      exact ⟨rfl, fun _ h => by cases h⟩

theorem sound_importModule {D : Prop} {path : FilePath}
    (h : ∀ p, env.moduleResolvePath path none = .ok p →
      Sound env D (preprocessModule env casts n p)) :
    Sound env D (importModule env casts n path) := by
  refine sound_moduleLoad_bind fun p hp => sound_bind (h p hp) fun _ => ?_
  refine sound_bind (sound_module p) fun m => ?_
  cases m.defaultExportName with
  | none => exact sound_throw trivial
  | some name =>
      cases m.defaultExportTypeDesc with
      | none => exact sound_throw trivial
      | some desc => exact sound_pure _

end Import

/-! ### The loop -/

/-- **What a run of the loop replaces the statements by.** -/
inductive Expands (env : ModuleEnv) :
    (FilePath → Bool) → List StmtNode → List StmtNode → Prop
  | nil {included : FilePath → Bool} : Expands env included [] []
  | cons {included included' : FilePath → Bool} {node : StmtNode} {nodes new out : List StmtNode}
      (hnode : Expansion env included node new included')
      (hnodes : Expands env included' nodes out) :
      Expands env included (node :: nodes) (new ++ out)

/-- The modules that a statement of the program imports can be preprocessed soundly. -/
def ImportsSound (env : ModuleEnv) (casts : NumericCasts) (D : Prop) (n : ℕ)
    (stmts : List ASTStmt) : Prop :=
  ∀ p, env.ImportedBy none stmts p → Sound env D (preprocessModule env casts n p)

/-- How the pass fails on a program: acceptably, and with an error only after the nodes it
has got to are freed. -/
structure FailsFreeing (D : Prop) (s : ModuleState) (first : List ℕ) (e : ModuleFail)
    (t : ModuleState) : Prop where
  acceptable : e.Acceptable D
  freed : ∀ e', e = .error e' → s.heap.KeepsFreed t.heap ∧ ∀ b ∈ first, t.heap.cells b = none

section Loop

variable {D : Prop} {s : ModuleState} {next : Option ℕ} {rest done : List (ℕ × StmtNode)}
  {out : LinkedList} {a n : ℕ} {v : StmtNode}

/-- The statement has been moved: there are new nodes in the list, and the old one has been
freed or is among them. -/
def Moved (env : ModuleEnv) (s : ModuleState) (next : Option ℕ) (rest done : List (ℕ × StmtNode))
    (a : ℕ) (v : StmtNode) (out : LinkedList) (t : ModuleState) : Prop :=
  ∃ new, ProgramInv env t next rest out (done ++ new) ∧
    Expansion env s.included v (new.map (·.2)) t.included ∧ s.heap.KeepsFreed t.heap ∧
    (t.heap.cells a = none ∨ a ∈ new.map (·.1))

/-- A statement that stays is moved. -/
theorem holds_appendStmt (h : ProgramInv env s next rest out done) (hheld : Held s rest done a v)
    (hexp : Expansion env s.included v [v] s.included) :
    Holds (Moved env s next rest done a v) (FailsFreeing D s (a :: done.map (·.1)))
      ((appendStmt out a).result s) ((appendStmt out a).final s) := by
  obtain ⟨heap, out', hresult, hfinal, hkeep, hinv, -⟩ := h.append hheld
  rw [hresult, hfinal]
  exact ⟨[(a, v)], hinv, hexp, hkeep, .inr List.mem_cons_self⟩

/-- An import is replaced. -/
theorem holds_includeImport (h : ProgramInv env s next rest out done)
    (hheld : Held s rest done a v) {path : FilePath} {importAlias : Option Ident}
    {isSelective : Bool} {symbols : List (Ident × Option Ident)}
    (hstmt : v.stmt = .importStmt path importAlias isSelective symbols)
    (hsound : Sound env D (importModule env casts n path)) :
    Holds (Moved env s next rest done a v) (FailsFreeing D s (a :: done.map (·.1)))
      ((includeImport env casts n out a v.loc path importAlias).result s)
      ((includeImport env casts n out a v.loc path importAlias).final s) := by
  have hholds := hsound s s ⟨h.good, .refl s⟩
  cases hr : (importModule env casts n path).result s with
  | ok r =>
      obtain ⟨t, out', new, hresult, hfinal, hinv, hkeep, hexp, hfreed⟩ :=
        run_includeImport_ok h hheld hstmt hr
      rw [hresult, hfinal]
      exact ⟨new, hinv, hexp, hkeep, .inl hfreed⟩
  | error e =>
      rw [hr] at hholds
      obtain ⟨hresult, hfreed⟩ := run_includeImport_error h hheld importAlias hr
        hholds.1
      rw [hresult]
      refine ⟨hholds.2, fun e' he' => ⟨(hfreed e' he').1, fun b hb => ?_⟩⟩
      exact (hfreed e' he').2 b (List.mem_cons.mp hb)

variable (casts n) in
/-- **A statement of the program.** -/
theorem holds_moveStmt (h : ProgramInv env s next rest out done) (hheld : Held s rest done a v)
    (hsound : ImportsSound env casts D n [v.stmt]) :
    Holds (Moved env s next rest done a v) (FailsFreeing D s (a :: done.map (·.1)))
      ((moveStmt env casts n out a v).result s) ((moveStmt env casts n out a v).final s) := by
  unfold moveStmt
  cases hv : v.stmt with
  | importStmt path importAlias isSelective symbols =>
      refine holds_includeImport h hheld hv (sound_importModule fun p hp => hsound p ?_)
      exact ⟨path, importAlias, isSelective, symbols, hv ▸ List.mem_cons_self, hp⟩
  | exportStmt isDefault symbols =>
      refine ⟨[], by rw [List.append_nil]; exact h.free hheld, ?_, NodeHeap.keepsFreed_free _ _,
        .inl (NodeHeap.cells_free_self ..)⟩
      unfold Expansion
      rw [hv]
      exact ⟨rfl, rfl⟩
  | _ =>
      refine holds_appendStmt h hheld ?_
      unfold Expansion
      rw [hv]
      exact ⟨rfl, rfl⟩

theorem ModuleFail.Acceptable.mono {D D' : Prop} {e : ModuleFail} (h : e.Acceptable D)
    (hD : D → D') : e.Acceptable D' := by
  cases e with
  | error e => cases e <;> exact h
  | stopped stop => exact trivial
  | diverges => exact hD h

variable (casts n) in
/-- A turn, up to the move of its statement. -/
theorem run_preprocessProgramTurn (h : ProgramInv env s (some a) ((a, v) :: rest) out done) :
    ∃ next t, ProgramInv env t next rest out done ∧ Held t rest done a v ∧
      (∃ heap, t = { s with heap }) ∧ s.heap.KeepsFreed t.heap ∧
      (preprocessProgramTurn env casts n (some a, out)).result s =
        ((moveStmt env casts n out a v).result t).map (fun out => .inl (next, out)) ∧
      (preprocessProgramTurn env casts n (some a, out)).final s =
        (moveStmt env casts n out a v).final t := by
  obtain ⟨next, hcell, hinv, hheld⟩ := h.unlink
  have hread : (readStmt a).result s = .ok ⟨v, next⟩ ∧ (readStmt a).final s = s := by
    unfold readStmt
    rw [result_get_bind, final_get_bind, hcell]
    exact ⟨rfl, rfl⟩
  have hmove := result_bind (moveStmt env casts n out a v)
    (fun out => pure (Sum.inl (next, out) : _ ⊕ LinkedList)) { s with heap := s.heap.setNext a none }
  refine ⟨next, { s with heap := s.heap.setNext a none }, hinv, hheld, ⟨_, rfl⟩,
    NodeHeap.keepsFreed_setNext _ _ _, ?_, ?_⟩
  · unfold preprocessProgramTurn
    dsimp only
    rw [result_bind, hread.1, hread.2]
    refine hmove.trans ?_
    cases (moveStmt env casts n out a v).result { s with heap := s.heap.setNext a none } <;> rfl
  · unfold preprocessProgramTurn
    dsimp only
    rw [final_bind, hread.1, hread.2]
    exact final_bind_pure ..

/-- The list at the end of a run that succeeds. -/
def LoopDone (env : ModuleEnv) (included : FilePath → Bool) (nodes : List StmtNode)
    (done : List (ℕ × StmtNode)) (out : LinkedList) (t : ModuleState) : Prop :=
  ∃ new, t.heap.Represents out (done ++ new) ∧ Expands env included nodes (new.map (·.2))

variable (casts n) in
/-- **The loop**, by induction on the statements that are to come. -/
theorem holds_loop (rest : List (ℕ × StmtNode)) :
    ∀ {s : ModuleState} {next : Option ℕ} {out : LinkedList} {done : List (ℕ × StmtNode)}
      (k : ℕ), ProgramInv env s next rest out done →
      ImportsSound env casts D n (rest.map (·.2.stmt)) →
      Holds (LoopDone env s.included (rest.map (·.2)) done)
        (FailsFreeing (D ∨ k ≤ rest.length) s ((rest.map (·.1)).take 1 ++ done.map (·.1)))
        ((Stateful.loop .diverges (preprocessProgramTurn env casts n) k (next, out)).result s)
        ((Stateful.loop .diverges (preprocessProgramTurn env casts n) k (next, out)).final s) := by
  induction rest with
  | nil =>
      intro s next out done k h _
      cases k with
      | zero => exact ⟨.inr le_rfl, fun _ he => by cases he⟩
      | succ k =>
          obtain rfl : next = none := h.restChain
          exact ⟨[], by rw [List.append_nil]; exact h.outList, .nil⟩
  | cons x rest ih =>
      intro s next out done k h hsound
      cases k with
      | zero => exact ⟨.inr (Nat.zero_le _), fun _ he => by cases he⟩
      | succ k =>
          obtain ⟨a, v⟩ := x
          obtain rfl : next = some a := h.restChain.1
          obtain ⟨next, s₁, hinv, hheld, hheap, hkeep, hresult, hfinal⟩ :=
            run_preprocessProgramTurn casts n h
          have hincluded : s₁.included = s.included := by
            obtain ⟨heap, rfl⟩ := hheap
            rfl
          have hmove := holds_moveStmt casts n hinv hheld
            fun p ⟨path, al, sel, syms, hmem, hp⟩ => hsound p
              ⟨path, al, sel, syms, List.mem_singleton.mp hmem ▸ List.mem_cons_self, hp⟩
          unfold Stateful.loop
          rw [result_bind, final_bind, hresult, hfinal]
          cases hr : (moveStmt env casts n out a v).result s₁ with
          | error e =>
              rw [hr] at hmove
              refine ⟨hmove.acceptable.mono .inl, fun e' he' => ?_⟩
              exact ⟨hkeep.trans (hmove.freed e' he').1, (hmove.freed e' he').2⟩
          | ok out₁ =>
              rw [hr] at hmove
              obtain ⟨new, hinv₁, hexp, hkeep₁, hfreed⟩ := hmove
              have hrest := ih k hinv₁ fun p ⟨path, al, sel, syms, hmem, hp⟩ => hsound p
                ⟨path, al, sel, syms, List.mem_cons_of_mem _ hmem, hp⟩
              rw [hincluded] at hexp
              refine hrest.mono (fun out' hdone => ?_) fun e hfails => ⟨?_, fun e' he' => ?_⟩
              · obtain ⟨new', hr', hexp'⟩ := hdone
                refine ⟨new ++ new', by rwa [← List.append_assoc], ?_⟩
                rw [List.map_append]
                exact .cons hexp hexp'
              · exact hfails.acceptable.mono (Or.imp id Nat.succ_le_succ)
              · obtain ⟨hkeep₂, hfreed₂⟩ := hfails.freed e' he'
                have hlist : ∀ b ∈ (done ++ new).map (·.1), _ := fun b hb =>
                  hfreed₂ b (List.mem_append_right _ hb)
                refine ⟨(hkeep.trans hkeep₁).trans hkeep₂, fun b hb => ?_⟩
                rcases List.mem_append.mp hb with hb | hb
                · obtain rfl := List.mem_singleton.mp hb
                  rcases hfreed with hfreed | hmem
                  · refine hkeep₂.freed b ?_ hfreed
                    exact (NodeHeap.lt_size_of_allocated hheld.allocated).trans_le hkeep₁.size_le
                  · exact hlist b (by rw [List.map_append]; exact List.mem_append_right _ hmem)
                · exact hlist b (by rw [List.map_append]; exact List.mem_append_left _ hb)

end Loop

end BreadLang
