import BreadLang.Codegen.Expr
import BreadLang.Codegen.Semantic
import BreadLang.Runtime.Class
import BreadLang.Runtime.ClassRegistry

/-!
# The hierarchy of the declared classes

A class names its parent, and the parent is looked up when it is needed, so a
class may be declared before its parent.  `cg_declare_class_from_ast` refuses a
name that is taken and looks at nothing else.  The walks along the parents are
loops and recursions with no bound of their own: here they take one, and a walk
returns when some bound is enough.

`walksReturn_iff` is exact: the walks return for an accepted sequence of
declarations when the names of the parents make no cycle.
-/

namespace BreadLang

open Relation

/-- `ASTStmtClassDecl`. -/
structure ASTClassDecl where
  name : Ident
  parentName : Option Ident
  fields : List (Ident × TypeDescriptor)
  methods : List FuncDecl
  constructor : Option FuncDecl

/-- The class that a declaration makes. -/
def ASTClassDecl.cgClass (d : ASTClassDecl) : CgClass where
  name := d.name
  parentName := d.parentName
  fields := d.fields
  methods := d.methods
  constructor := d.constructor
  methodFunctions := d.methods.map fun _ => none
  constructorFunction := none

/-- `cg_declare_class_from_ast` on one declaration after the other. -/
def declareClasses (decls : List ASTClassDecl) (cg : Cg) : CgResult Cg :=
  decls.foldlM (fun cg d =>
    cg.declareClassFromAst d.name d.parentName d.fields d.methods d.constructor) cg

/-- A declared class names its parent. -/
def NamesParent (decls : List ASTClassDecl) (name parentName : Ident) : Prop :=
  ∃ d ∈ decls, d.name = name ∧ d.parentName = some parentName

namespace Cg

variable (cg : Cg)

/-- `cg_collect_all_fields`. -/
def collectAllFieldsIn : ℕ → CgClass → Option (List Ident) :=
  Walk.collect cg.parentClass fun c => c.fields.map Prod.fst

/-- `cg_collect_all_methods`. -/
def collectAllMethodsIn : ℕ → CgClass → Option (List Ident) :=
  Walk.gather cg.parentClass fun c => c.methods.map ASTFuncDecl.name

/-- One class is the parent of the other. -/
def ParentOf (c parent : CgClass) : Prop := cg.parentClass c = some parent

/-- The loop that looks for the declaration of a method. -/
def methodDeclIn (name : Ident) : ℕ → CgClass → CgResult (Option FuncDecl) :=
  cg.searchAncestorsLoop fun c => .ok (ownMethodDecl c name)

/-- The loop that looks for the type of a field. -/
def fieldTypeIn (member : Ident) : ℕ → CgClass → CgResult (Option TypeDescriptor) :=
  cg.searchAncestorsLoop fun c => .ok (fieldType c.fields member)

/-- The two loops of `cg_common_superclass_desc`. -/
def commonSuperclassIn (n : ℕ) (a b : CgClass) : CgResult (Option TypeDescriptor) :=
  cg.searchAncestorsLoop (fun a =>
    cg.searchAncestorsLoop (fun b =>
      .ok (if a.name == b.name then some a.typeDesc else none)) n b) n a

/-- **The walks over the hierarchy return**, from every class of the generator, and
from every definition of the registry that is built of them. -/
structure WalksReturn : Prop where
  fields : ∀ c ∈ cg.classes, ∃ n, (cg.collectAllFieldsIn n c).isSome
  methods : ∀ c ∈ cg.classes, ∃ n, (cg.collectAllMethodsIn n c).isSome
  methodDecls : ∀ c ∈ cg.classes, ∀ name, ∃ n r, cg.methodDeclIn name n c = .ok r
  fieldTypes : ∀ c ∈ cg.classes, ∀ member, ∃ n r, cg.fieldTypeIn member n c = .ok r
  commonSuperclass : ∀ a ∈ cg.classes, ∀ b ∈ cg.classes, ∃ n r,
    cg.commonSuperclassIn n a b = .ok r
  runtimeFields : ∀ (F : Type) (engine : ClassRegistry.Engine F) registry,
    ClassRegistry.connectAllClasses engine cg.classes = some registry →
      ∀ d ∈ registry, ∃ n, (ClassRegistry.collectAllFields registry n d).isSome
  runtimeMethods : ∀ (F : Type) (engine : ClassRegistry.Engine F) registry,
    ClassRegistry.connectAllClasses engine cg.classes = some registry →
      ∀ d ∈ registry, ∀ name, ∃ n,
        (ClassRegistry.findMethodDefiningClass registry name n d).isSome

/-- No class is an ancestor of itself. -/
def NoSelfAncestor : Prop :=
  ∀ c, ¬ TransGen cg.ParentOf c c

variable {cg}

/-! ### The walks of the generator -/

theorem ancestorsLoop_eq (n : ℕ) (c : CgClass) :
    cg.ancestorsLoop n c =
      (Walk.chain cg.parentClass n c).elim (.error .diverges) .ok := by
  induction n generalizing c with
  | zero => rfl
  | succ n ih =>
      unfold ancestorsLoop Walk.chain
      cases hparent : cg.parentClass c with
      | none => rfl
      | some parent =>
          simp only [ih]
          cases Walk.chain cg.parentClass n parent <;> rfl

/-- The fields that the generator collects in as many steps as there are classes. -/
theorem collectAllFields_eq (c : CgClass) :
    collectAllFields cg c =
      (cg.collectAllFieldsIn (cg.classes.length + 1) c).elim (.error .diverges) .ok := by
  rw [collectAllFields, ancestors, ancestorsLoop_eq, collectAllFieldsIn, Walk.collect_eq]
  cases Walk.chain cg.parentClass (cg.classes.length + 1) c <;> rfl

/-- A loop along a chain that ends comes to an end, if its body does. -/
theorem exists_searchAncestorsLoop {α : Type} {p : CgClass → CgResult (Option α)} {n : ℕ}
    {c : CgClass} {l : List CgClass} (h : Walk.chain cg.parentClass n c = some l)
    (hp : ∀ c, ∃ r, p c = .ok r) : ∃ r, cg.searchAncestorsLoop p n c = .ok r := by
  induction n generalizing c l with
  | zero => cases h
  | succ n ih =>
      obtain ⟨r, hr⟩ := hp c
      unfold searchAncestorsLoop
      rw [hr]
      cases r with
      | some a => exact ⟨some a, rfl⟩
      | none =>
          cases hparent : cg.parentClass c with
          | none => exact ⟨none, rfl⟩
          | some parent =>
              rw [Walk.chain_succ_some hparent, Option.map_eq_some_iff] at h
              obtain ⟨l', hl', -⟩ := h
              obtain ⟨r, hr⟩ := ih hl'
              exact ⟨r, hr⟩

theorem parentClass_mem {c parent : CgClass} (h : cg.parentClass c = some parent) :
    parent ∈ cg.classes := by
  obtain ⟨name, -, hname⟩ := Option.bind_eq_some_iff.mp h
  exact List.mem_of_find?_eq_some hname

theorem parentClass_name {c parent : CgClass} (h : cg.parentClass c = some parent) :
    c.parentName = some parent.name := by
  obtain ⟨name, hparent, hname⟩ := Option.bind_eq_some_iff.mp h
  have hfound : parent.name = name := by simpa using List.find?_some hname
  rw [hparent, hfound]

/-- The chain of a class ends when no class is its own ancestor. -/
theorem NoSelfAncestor.exists_chain (h : cg.NoSelfAncestor) {c : CgClass} (hc : c ∈ cg.classes) :
    ∃ n l, Walk.chain cg.parentClass n c = some l :=
  (Walk.exists_chain_iff (fun _ _ _ hparent => parentClass_mem hparent) hc).mpr fun b _ => h b

/-- **The walks of the generator return when no class is its own ancestor.** -/
theorem NoSelfAncestor.commonSuperclass (h : cg.NoSelfAncestor) {a b : CgClass}
    (ha : a ∈ cg.classes) (hb : b ∈ cg.classes) : ∃ n r, cg.commonSuperclassIn n a b = .ok r := by
  obtain ⟨n, l, hl⟩ := h.exists_chain ha
  obtain ⟨m, l', hl'⟩ := h.exists_chain hb
  refine ⟨max n m, ?_⟩
  have hinner : ∀ a : CgClass, ∃ r, cg.searchAncestorsLoop (fun b =>
      .ok (if a.name == b.name then some a.typeDesc else none)) (max n m) b = .ok r := fun a =>
    exists_searchAncestorsLoop (Walk.chain_mono hl' (le_max_right n m)) fun b => ⟨_, rfl⟩
  exact exists_searchAncestorsLoop (Walk.chain_mono hl (le_max_left n m)) hinner

end Cg

/-! ### Declared classes -/

section Declared

variable {decls : List ASTClassDecl} {cg cg' : Cg}

theorem declareClassFromAst_ok {d : ASTClassDecl}
    (h : cg.declareClassFromAst d.name d.parentName d.fields d.methods d.constructor = .ok cg') :
    cg'.classes = d.cgClass :: cg.classes ∧ d.name ∉ cg.classes.map CgClass.name := by
  unfold Cg.declareClassFromAst at h
  split at h
  · cases h
  · rename_i hnew
    cases h
    refine ⟨rfl, fun hmem => hnew ?_⟩
    obtain ⟨c, hc, hname⟩ := List.mem_map.mp hmem
    exact List.find?_isSome.mpr ⟨c, hc, beq_iff_eq.mpr hname⟩

/-- **The table holds the declared classes**, the last one first, under different
names. -/
theorem declareClasses_ok (hnodup : (cg.classes.map CgClass.name).Nodup)
    (h : declareClasses decls cg = .ok cg') :
    cg'.classes = (decls.map ASTClassDecl.cgClass).reverse ++ cg.classes ∧
      (cg'.classes.map CgClass.name).Nodup := by
  induction decls generalizing cg with
  | nil =>
      cases h
      exact ⟨rfl, hnodup⟩
  | cons d decls ih =>
      rw [declareClasses, List.foldlM_cons] at h
      cases hfirst : cg.declareClassFromAst d.name d.parentName d.fields d.methods
          d.constructor with
      | error e =>
          rw [hfirst] at h
          cases h
      | ok middle =>
          rw [hfirst] at h
          obtain ⟨hclasses, hnew⟩ := declareClassFromAst_ok hfirst
          have hnodup' : (middle.classes.map CgClass.name).Nodup := by
            rw [hclasses, List.map_cons]
            exact List.nodup_cons.mpr ⟨hnew, hnodup⟩
          obtain ⟨hrest, hdistinct⟩ := ih hnodup' h
          refine ⟨?_, hdistinct⟩
          rw [hrest, hclasses, List.map_cons, List.reverse_cons, List.append_assoc]
          rfl

theorem init_classes_nodup : (Cg.init.classes.map CgClass.name).Nodup :=
  List.nodup_nil

theorem mem_classes_iff (h : declareClasses decls Cg.init = .ok cg) {c : CgClass} :
    c ∈ cg.classes ↔ ∃ d ∈ decls, d.cgClass = c := by
  have hclasses : cg.classes = (decls.map ASTClassDecl.cgClass).reverse ++ [] :=
    (declareClasses_ok init_classes_nodup h).1
  rw [hclasses, List.append_nil, List.mem_reverse, List.mem_map]

theorem declaredClasses_nodup (h : declareClasses decls Cg.init = .ok cg) :
    (cg.classes.map CgClass.name).Nodup :=
  (declareClasses_ok init_classes_nodup h).2

/-- The parent of a class is the one that its declaration names. -/
theorem namesParent_of_parentOf (h : declareClasses decls Cg.init = .ok cg) {c parent : CgClass}
    (hc : c ∈ cg.classes) (hparent : cg.ParentOf c parent) :
    NamesParent decls c.name parent.name := by
  obtain ⟨d, hd, rfl⟩ := (mem_classes_iff h).mp hc
  exact ⟨d, hd, rfl, Cg.parentClass_name hparent⟩

/-- A class that is named as the parent of another is its parent. -/
theorem parentOf_of_namesParent (h : declareClasses decls Cg.init = .ok cg) {c parent : CgClass}
    (hc : c ∈ cg.classes) (hparent : parent ∈ cg.classes)
    (hnames : NamesParent decls c.name parent.name) : cg.ParentOf c parent := by
  obtain ⟨d, hd, hname, hparentName⟩ := hnames
  have hnodup := declaredClasses_nodup h
  have heq : d.cgClass = c :=
    List.inj_on_of_nodup_map hnodup ((mem_classes_iff h).mpr ⟨d, hd, rfl⟩) hc hname
  have hfind : cg.findClass parent.name = some parent := find?_name_of_mem hnodup hparent
  rw [Cg.ParentOf, Cg.parentClass, ← heq]
  exact (congrArg (fun p => Option.bind p cg.findClass) hparentName).trans hfind

/-- Every name on a path of parents is that of a class, apart from the last. -/
theorem exists_class_of_path (h : declareClasses decls Cg.init = .ok cg) {x y : Ident}
    (hpath : TransGen (NamesParent decls) x y) : ∃ c ∈ cg.classes, c.name = x := by
  obtain ⟨z, ⟨d, hd, hname, -⟩, -⟩ := TransGen.head'_iff.mp hpath
  exact ⟨d.cgClass, (mem_classes_iff h).mpr ⟨d, hd, rfl⟩, hname⟩

/-- A path of names is a path of parents. -/
theorem ancestor_of_path (h : declareClasses decls Cg.init = .ok cg) {x y : Ident}
    (hpath : TransGen (NamesParent decls) x y) {c e : CgClass} (hc : c ∈ cg.classes)
    (hcname : c.name = x) (he : e ∈ cg.classes) (hename : e.name = y) :
    TransGen cg.ParentOf c e := by
  induction hpath generalizing e with
  | single hnames =>
      subst hcname hename
      exact .single (parentOf_of_namesParent h hc he hnames)
  | tail _ hnames ih =>
      obtain ⟨d, hd, hname, hparentName⟩ := hnames
      have hmiddle : d.cgClass ∈ cg.classes := (mem_classes_iff h).mpr ⟨d, hd, rfl⟩
      subst hename
      exact (ih hmiddle hname).tail
        (parentOf_of_namesParent h hmiddle he ⟨d, hd, rfl, hparentName⟩)

/-- A path of parents is a path of names. -/
theorem path_of_ancestor (h : declareClasses decls Cg.init = .ok cg) {c e : CgClass}
    (hc : c ∈ cg.classes) (hpath : TransGen cg.ParentOf c e) :
    TransGen (NamesParent decls) c.name e.name := by
  induction hpath using TransGen.head_induction_on with
  | single hparent => exact .single (namesParent_of_parentOf h hc hparent)
  | head hparent _ ih =>
      exact .head (namesParent_of_parentOf h hc hparent) (ih (Cg.parentClass_mem hparent))

/-- A class that is an ancestor is in the table. -/
theorem mem_of_ancestor {c e : CgClass} (hpath : TransGen cg.ParentOf c e) :
    e ∈ cg.classes := by
  obtain ⟨_, -, hparent⟩ := TransGen.tail'_iff.mp hpath
  exact Cg.parentClass_mem hparent

/-- **A class is its own ancestor exactly when the names of the parents make a
cycle.** -/
theorem noSelfAncestor_iff (h : declareClasses decls Cg.init = .ok cg) :
    cg.NoSelfAncestor ↔ ∀ name, ¬ TransGen (NamesParent decls) name name := by
  constructor
  · intro hself name hcycle
    obtain ⟨c, hc, rfl⟩ := exists_class_of_path h hcycle
    exact hself c (ancestor_of_path h hcycle hc rfl hc rfl)
  · intro hnames c hcycle
    exact hnames c.name (path_of_ancestor h (mem_of_ancestor hcycle) hcycle)

/-- The parent of a definition is the one that the declaration names. -/
theorem namesParent_of_runtimeParent {F : Type} {engine : ClassRegistry.Engine F}
    {registry : ClassRegistry.Registry F} (h : declareClasses decls Cg.init = .ok cg)
    (hregistry : ClassRegistry.connectAllClasses engine cg.classes = some registry)
    {d e : ClassObject F} (hd : d ∈ registry)
    (hparent : ClassRegistry.parent registry d = some e) :
    NamesParent decls d.className e.className := by
  obtain ⟨name, hname, hfind⟩ := Option.bind_eq_some_iff.mp hparent
  obtain ⟨c, hc, hdescribes⟩ :=
    ClassRegistry.exists_describes (declaredClasses_nodup h) hregistry hd
  obtain ⟨decl, hdecl, rfl⟩ := (mem_classes_iff h).mp hc
  refine ⟨decl, hdecl, hdescribes.className.symm, ?_⟩
  rcases hdescribes.parentClass with hnone | hsome
  · rw [hnone] at hname
    cases hname
  · rw [ClassRegistry.findDefinition_className hfind, ← hname, hsome]
    rfl

/-- The chain of a definition ends when the names of the parents make no cycle. -/
theorem exists_runtimeChain {F : Type} {engine : ClassRegistry.Engine F}
    {registry : ClassRegistry.Registry F} (h : declareClasses decls Cg.init = .ok cg)
    (hregistry : ClassRegistry.connectAllClasses engine cg.classes = some registry)
    (hnames : ∀ name, ¬ TransGen (NamesParent decls) name name) {d : ClassObject F}
    (hd : d ∈ registry) : ∃ n l, Walk.chain (ClassRegistry.parent registry) n d = some l := by
  have hclosed : ∀ d ∈ registry, ∀ e, ClassRegistry.parent registry d = some e →
      e ∈ registry := fun d _ e he => by
    obtain ⟨name, -, hfind⟩ := Option.bind_eq_some_iff.mp he
    exact List.mem_of_find?_eq_some hfind
  refine (Walk.exists_chain_iff hclosed hd).mpr fun b hb hcycle => hnames b.className ?_
  have hbmem := Walk.mem_of_reflTransGen hclosed hd hb
  have hpath : ∀ x ∈ registry, ∀ y,
      TransGen (fun x y => ClassRegistry.parent registry x = some y) x y →
        TransGen (NamesParent decls) x.className y.className := by
    intro x hx y hxy
    induction hxy using TransGen.head_induction_on with
    | single hparent => exact .single (namesParent_of_runtimeParent h hregistry hx hparent)
    | head hparent _ ih =>
        exact .head (namesParent_of_runtimeParent h hregistry hx hparent)
          (ih (hclosed _ hx _ hparent))
  exact hpath b hbmem b hcycle

/-- **No class is its own ancestor and the walks return, exactly when the names of
the parents make no cycle.** -/
theorem walksReturn_iff (h : declareClasses decls Cg.init = .ok cg) :
    (cg.NoSelfAncestor ∧ cg.WalksReturn) ↔
      ∀ name, ¬ TransGen (NamesParent decls) name name := by
  refine ⟨fun hboth => (noSelfAncestor_iff h).mp hboth.1, fun hnames => ?_⟩
  have hself := (noSelfAncestor_iff h).mpr hnames
  refine ⟨hself, ?_, ?_, ?_, ?_, ?_, ?_, ?_⟩
  · intro c hc
    obtain ⟨n, l, hl⟩ := hself.exists_chain hc
    exact ⟨n, by rw [Cg.collectAllFieldsIn, Walk.collect_eq, hl]; rfl⟩
  · intro c hc
    obtain ⟨n, l, hl⟩ := hself.exists_chain hc
    exact ⟨n, Walk.gather_isSome _ hl⟩
  · intro c hc name
    obtain ⟨n, l, hl⟩ := hself.exists_chain hc
    exact ⟨n, Cg.exists_searchAncestorsLoop hl fun c => ⟨_, rfl⟩⟩
  · intro c hc member
    obtain ⟨n, l, hl⟩ := hself.exists_chain hc
    exact ⟨n, Cg.exists_searchAncestorsLoop hl fun c => ⟨_, rfl⟩⟩
  · intro a ha b hb
    exact hself.commonSuperclass ha hb
  · intro F engine registry hregistry d hd
    obtain ⟨n, l, hl⟩ := exists_runtimeChain h hregistry hnames hd
    exact ⟨n, by rw [ClassRegistry.collectAllFields, Walk.collect_eq, hl]; rfl⟩
  · intro F engine registry hregistry d hd name
    obtain ⟨n, l, hl⟩ := exists_runtimeChain h hregistry hnames hd
    exact ⟨n, Walk.search_isSome hl⟩

end Declared

/-- `class A extends B` before `class B`. -/
def childFirst : List ASTClassDecl :=
  [⟨"A".toList, some "B".toList, [], [], none⟩, ⟨"B".toList, none, [], [], none⟩]

/-- The parent of a class may be declared after it. -/
theorem childFirst_walksReturn :
    ∃ cg, declareClasses childFirst Cg.init = .ok cg ∧ cg.NoSelfAncestor ∧ cg.WalksReturn := by
  have hedge : ∀ x y, NamesParent childFirst x y → x = "A".toList ∧ y = "B".toList := by
    rintro x y ⟨d, hd, rfl, hparent⟩
    rcases List.mem_cons.mp hd with rfl | hd
    · exact ⟨rfl, (Option.some.inj hparent).symm⟩
    · rw [List.mem_singleton.mp hd] at hparent
      cases hparent
  refine ⟨_, rfl, (@walksReturn_iff childFirst _ rfl).mpr fun name hcycle => ?_⟩
  obtain ⟨_, hfirst, -⟩ := TransGen.head'_iff.mp hcycle
  obtain ⟨_, -, hlast⟩ := TransGen.tail'_iff.mp hcycle
  have hsame : "A".toList = "B".toList := (hedge _ _ hfirst).1.symm.trans (hedge _ _ hlast).2
  exact absurd hsame (by decide)

/-- `class A extends A`. -/
def ownParent : ASTClassDecl :=
  ⟨"A".toList, some "A".toList, [], [], none⟩

/-- The generator after the declaration of that class. -/
def ownParentCg : Cg := { Cg.init with classes := [ownParent.cgClass] }

/-- A class that names itself as its parent is accepted, and a walk from it never
returns. -/
theorem ownParent_diverges :
    declareClasses [ownParent] Cg.init = .ok ownParentCg ∧
      ¬ (ownParentCg.NoSelfAncestor ∧ ownParentCg.WalksReturn) ∧
      ∀ n, ownParentCg.collectAllFieldsIn n ownParent.cgClass = none := by
  have hparent : ownParentCg.ParentOf ownParent.cgClass ownParent.cgClass := rfl
  refine ⟨rfl, fun hboth => hboth.1 _ (.single hparent), fun n => ?_⟩
  rw [Cg.collectAllFieldsIn, Walk.collect_eq, Option.map_eq_none_iff]
  refine Option.eq_none_iff_forall_not_mem.mpr fun l hl => ?_
  exact Walk.not_transGen_of_chain hl (.single hparent)

end BreadLang
