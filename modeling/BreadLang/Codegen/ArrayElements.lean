import BreadLang.Codegen.Hierarchy
import BreadLang.Library.Ancestry

/-!
# The element type of an array literal

`cg_infer_expr_type_desc_simple` goes through the elements of a literal from left to right and
widens the type so far to a common superclass.  In a hierarchy without cycles the classes are
ordered, and `cg_common_superclass_desc` finds least upper bounds.  So the class that the loop
ends with is the least upper bound of all the classes, in any order of the elements.
-/

namespace BreadLang

open Relation

namespace Cg

variable {cg : Cg}

/-- The name of the class that is the parent of the class of a name. -/
def parentIdent (cg : Cg) (x : Ident) : Option Ident :=
  ((cg.findClass x).bind cg.parentClass).map CgClass.name

/-- The names of classes; those of the ancestors of a class are above its own. -/
abbrev ClassOrder (cg : Cg) : Type := Ancestry cg.parentIdent

/-- The type of an expression is inferred to be a class. -/
def InfersClass (cg : Cg) (e : ASTExpr) (x : cg.ClassOrder) : Prop :=
  ∃ parentName fields, cg.inferTypeDesc e = .ok (.class x.node parentName fields)

/-- The classes of the elements of a literal. -/
def itemClasses (cg : Cg) (items : List ASTExpr) : Set cg.ClassOrder :=
  {x | ∃ e ∈ items, cg.InfersClass e x}

/-! ### Classes and their names -/

theorem name_of_findClass {x : Ident} {c : CgClass} (h : cg.findClass x = some c) : c.name = x := by
  simpa using List.find?_some h

theorem mem_of_findClass {x : Ident} {c : CgClass} (h : cg.findClass x = some c) :
    c ∈ cg.classes :=
  List.mem_of_find?_eq_some h

/-- A parent is the class of its name. -/
theorem findClass_of_parentClass {c p : CgClass} (h : cg.parentClass c = some p) :
    cg.findClass p.name = some p := by
  obtain ⟨name, -, hname⟩ := Option.bind_eq_some_iff.mp h
  rw [name_of_findClass hname, hname]

theorem parentIdent_eq_some_iff {x y : Ident} : cg.parentIdent x = some y ↔
    ∃ c p, cg.findClass x = some c ∧ cg.parentClass c = some p ∧ p.name = y := by
  unfold parentIdent
  simp only [Option.map_eq_some_iff, Option.bind_eq_some_iff]
  constructor
  · rintro ⟨p, ⟨c, hc, hparent⟩, hy⟩
    exact ⟨c, p, hc, hparent, hy⟩
  · rintro ⟨c, p, hc, hparent, hy⟩
    exact ⟨p, ⟨c, hc, hparent⟩, hy⟩

theorem parent_eq_some_iff {x y : cg.ClassOrder} : Ancestry.parent x = some y ↔
    ∃ c p, cg.findClass x.node = some c ∧ cg.parentClass c = some p ∧ p.name = y.node := by
  unfold Ancestry.parent
  rw [Option.map_eq_some_iff, ← parentIdent_eq_some_iff]
  constructor
  · rintro ⟨name, hname, rfl⟩
    exact hname
  · intro hy
    exact ⟨y.node, hy, rfl⟩

/-- A path of names is a path of classes. -/
theorem ancestor_of_names {x y : cg.ClassOrder}
    (h : TransGen (fun a b : cg.ClassOrder => Ancestry.parent a = some b) x y) {c e : CgClass}
    (hc : cg.findClass x.node = some c) (he : cg.findClass y.node = some e) :
    TransGen cg.ParentOf c e := by
  induction h using TransGen.head_induction_on generalizing c with
  | single hstep =>
    obtain ⟨c', p, hc', hparent, hy⟩ := parent_eq_some_iff.mp hstep
    obtain rfl : c = c' := Option.some.inj (hc.symm.trans hc')
    have hp := findClass_of_parentClass hparent
    rw [hy] at hp
    obtain rfl : p = e := Option.some.inj (hp.symm.trans he)
    exact .single hparent
  | head hstep _ ih =>
    obtain ⟨c', p, hc', hparent, hy⟩ := parent_eq_some_iff.mp hstep
    obtain rfl : c = c' := Option.some.inj (hc.symm.trans hc')
    have hp := findClass_of_parentClass hparent
    rw [hy] at hp
    exact .head hparent (ih hp)

/-- No name is above itself when no class is its own ancestor. -/
theorem NoSelfAncestor.names (h : cg.NoSelfAncestor) (x : cg.ClassOrder) :
    ¬ TransGen (fun a b : cg.ClassOrder => Ancestry.parent a = some b) x x := by
  intro hcycle
  obtain ⟨_, hfirst, -⟩ := TransGen.head'_iff.mp hcycle
  obtain ⟨c, -, hc, -, -⟩ := parent_eq_some_iff.mp hfirst
  exact h c (ancestor_of_names hcycle hc hc)

/-- The chain of a name has the names of the chain of its class. -/
theorem chain_names {x : cg.ClassOrder} {c : CgClass} {n : ℕ} {l : List CgClass}
    (hc : cg.findClass x.node = some c) (h : Walk.chain cg.parentClass n c = some l) :
    Walk.chain Ancestry.parent n x = some (l.map fun c => (⟨c.name⟩ : cg.ClassOrder)) := by
  induction n generalizing x c l with
  | zero => cases h
  | succ n ih =>
    obtain ⟨x⟩ := x
    obtain rfl : c.name = x := name_of_findClass hc
    cases hparent : cg.parentClass c with
    | none =>
      rw [Walk.chain_succ_none hparent] at h
      obtain rfl := Option.some.inj h
      have hnone : Ancestry.parent (⟨c.name⟩ : cg.ClassOrder) = none := by
        rw [Option.eq_none_iff_forall_ne_some]
        intro y hy
        obtain ⟨c', p, hc', hp, -⟩ := parent_eq_some_iff.mp hy
        obtain rfl : c = c' := Option.some.inj (hc.symm.trans hc')
        rw [hparent] at hp
        exact absurd hp (by simp)
      exact Walk.chain_succ_none hnone
    | some p =>
      rw [Walk.chain_succ_some hparent, Option.map_eq_some_iff] at h
      obtain ⟨l', hl', rfl⟩ := h
      have hsome : Ancestry.parent (⟨c.name⟩ : cg.ClassOrder) = some ⟨p.name⟩ :=
        parent_eq_some_iff.mpr ⟨c, p, hc, hparent, rfl⟩
      rw [Walk.chain_succ_some hsome, ih (x := ⟨p.name⟩) (findClass_of_parentClass hparent) hl']
      rfl

/-- A name that no class has is below itself only. -/
theorem eq_of_le_of_not_found {x y : cg.ClassOrder} (hx : cg.findClass x.node = none) (h : x ≤ y) :
    x = y := by
  rcases ReflTransGen.cases_head (Ancestry.le_def.mp h) with rfl | ⟨b, hb, -⟩
  · rfl
  · obtain ⟨c, -, hc, -, -⟩ := parent_eq_some_iff.mp hb
    rw [hx] at hc
    exact absurd hc (by simp)

/-- What is above another name is the name of a class. -/
theorem found_of_lt {x y : cg.ClassOrder} (h : x ≤ y) (hne : x ≠ y) :
    (cg.findClass y.node).isSome := by
  rcases ReflTransGen.cases_tail (Ancestry.le_def.mp h) with rfl | ⟨b, -, hb⟩
  · exact absurd rfl hne
  · obtain ⟨c, p, -, hparent, hp⟩ := parent_eq_some_iff.mp hb
    rw [← hp, findClass_of_parentClass hparent]
    rfl

/-! ### The nearest common superclass -/

/-- A search along a chain is a search of the list of its classes. -/
theorem searchAncestorsLoop_of_chain {α : Type} {p : CgClass → CgResult (Option α)}
    {f : CgClass → Option α} {n : ℕ} {c : CgClass} {l : List CgClass} (hp : ∀ a, p a = .ok (f a))
    (h : Walk.chain cg.parentClass n c = some l) :
    cg.searchAncestorsLoop p n c = .ok (l.findSome? f) := by
  induction n generalizing c l with
  | zero => cases h
  | succ n ih =>
    unfold searchAncestorsLoop
    rw [hp]
    cases hparent : cg.parentClass c with
    | none =>
      rw [Walk.chain_succ_none hparent] at h
      obtain rfl := Option.some.inj h
      cases hf : f c with
      | none => simp [hf, bind, Except.bind, pure, Except.pure]
      | some a => simp [hf, bind, Except.bind, pure, Except.pure]
    | some parent =>
      rw [Walk.chain_succ_some hparent, Option.map_eq_some_iff] at h
      obtain ⟨l', hl', rfl⟩ := h
      cases hf : f c with
      | none =>
        rw [List.findSome?_cons, hf]
        exact ih hl'
      | some a => simp [hf, bind, Except.bind, pure, Except.pure]

/-- The inner loop of `cg_common_superclass_desc` looks for the name of a class. -/
theorem findSome_name (a : CgClass) (l : List CgClass) :
    (l.findSome? fun b => if a.name == b.name then some a.typeDesc else none) =
      if a.name ∈ l.map CgClass.name then some a.typeDesc else none := by
  induction l with
  | nil => rfl
  | cons b l ih =>
    rw [List.findSome?_cons, ih, List.map_cons]
    by_cases h : a.name = b.name <;> simp [h]

/-- The chain of a class in the table. -/
theorem NoSelfAncestor.exists_ancestors (h : cg.NoSelfAncestor) {c : CgClass}
    (hc : c ∈ cg.classes) : ∃ l, Walk.chain cg.parentClass (cg.classes.length + 1) c = some l :=
  Walk.exists_chain_of_acyclic (fun _ _ _ hparent => parentClass_mem hparent) hc h
    (Nat.le_succ _)

/-- `cg_common_superclass_desc` answers with a common superclass that is nearest, or there is
none. -/
def FindsBound (cg : Cg) (x y : cg.ClassOrder) (result : CgResult (Option TypeDescriptor)) : Prop :=
  (∃ z : cg.ClassOrder, ∃ parentName fields,
    result = .ok (some (.class z.node parentName fields)) ∧ IsLUB {x, y} z) ∨
  (result = .ok none ∧ ¬ BddAbove ({x, y} : Set cg.ClassOrder))

/-- The name of a class is on the chain of another class when it is above its name. -/
theorem mem_names_iff {y : cg.ClassOrder} {c : CgClass} {n : ℕ} {l : List CgClass}
    (hc : cg.findClass y.node = some c) (h : Walk.chain cg.parentClass n c = some l)
    (name : Ident) : name ∈ l.map CgClass.name ↔ y ≤ ⟨name⟩ := by
  rw [← Ancestry.mem_chain_iff (chain_names hc h), List.mem_map, List.mem_map]
  simp

theorem commonSuperclassDesc_bound (hacyclic : cg.NoSelfAncestor) {x y : cg.ClassOrder}
    (hne : x ≠ y) {p q : Option Ident} {fields fields' : List (Ident × TypeDescriptor)} :
    cg.FindsBound x y
      (cg.commonSuperclassDesc (.class x.node p fields) (.class y.node q fields')) := by
  unfold commonSuperclassDesc nominalName
  simp only [Option.bind_some]
  cases hx : cg.findClass x.node with
  | none =>
    refine .inr ⟨rfl, fun ⟨z, hz⟩ => ?_⟩
    obtain rfl := eq_of_le_of_not_found hx (hz (.inl rfl))
    have hfound := found_of_lt (hz (.inr rfl)) hne.symm
    rw [hx] at hfound
    exact absurd hfound (by simp)
  | some ca =>
    cases hy : cg.findClass y.node with
    | none =>
      refine .inr ⟨rfl, fun ⟨z, hz⟩ => ?_⟩
      obtain rfl := eq_of_le_of_not_found hy (hz (.inr rfl))
      have hfound := found_of_lt (hz (.inl rfl)) hne
      rw [hy] at hfound
      exact absurd hfound (by simp)
    | some cb =>
      obtain ⟨la, hla⟩ := hacyclic.exists_ancestors (mem_of_findClass hx)
      obtain ⟨lb, hlb⟩ := hacyclic.exists_ancestors (mem_of_findClass hy)
      have hinner : ∀ a : CgClass, cg.searchAncestors cb (fun b =>
          .ok (if a.name == b.name then some a.typeDesc else none)) =
            .ok (if a.name ∈ lb.map CgClass.name then some a.typeDesc else none) := fun a => by
        rw [searchAncestors, searchAncestorsLoop_of_chain (fun _ => rfl) hlb, findSome_name]
      have houter := searchAncestorsLoop_of_chain hinner hla
      show cg.FindsBound x y (cg.searchAncestorsLoop _ _ ca)
      rw [houter]
      cases hfound : la.findSome?
          (fun a => if a.name ∈ lb.map CgClass.name then some a.typeDesc else none) with
      | none =>
        refine .inr ⟨rfl, Ancestry.not_bddAbove_of_none (chain_names hx hla) fun z hz => ?_⟩
        obtain ⟨a, ha, rfl⟩ := List.mem_map.mp hz
        have hnone := List.findSome?_eq_none_iff.mp hfound a ha
        intro hle
        rw [if_pos ((mem_names_iff hy hlb a.name).mpr hle)] at hnone
        exact absurd hnone (by simp)
      | some d =>
        obtain ⟨before, a, after, rfl, ha, hbefore⟩ := List.findSome?_eq_some_iff.mp hfound
        have hmem : a.name ∈ lb.map CgClass.name := by
          by_contra hnot
          rw [if_neg hnot] at ha
          exact absurd ha (by simp)
        rw [if_pos hmem] at ha
        obtain rfl : a.typeDesc = d := Option.some.inj ha
        refine .inl ⟨⟨a.name⟩, a.parentName, a.fields, rfl, ?_⟩
        refine Ancestry.isLUB_of_find (chain_names hx hla) (List.map_append ..)
          ((mem_names_iff hy hlb a.name).mp hmem) fun z hz => ?_
        obtain ⟨a', ha', rfl⟩ := List.mem_map.mp hz
        intro hle
        have hnone := hbefore a' ha'
        rw [if_pos ((mem_names_iff hy hlb a'.name).mpr hle)] at hnone
        exact absurd hnone (by simp)

/-! ### The loop over the elements -/

theorem InfersClass.unique {e : ASTExpr} {x y : cg.ClassOrder} (hx : cg.InfersClass e x)
    (hy : cg.InfersClass e y) : x = y := by
  obtain ⟨p, fields, hx⟩ := hx
  obtain ⟨q, fields', hy⟩ := hy
  rw [hx] at hy
  injection hy with hy
  injection hy with hy
  exact Ancestry.ext hy

theorem itemClasses_nil : cg.itemClasses [] = ∅ := by
  ext x
  simp [itemClasses]

theorem itemClasses_cons {e : ASTExpr} {items : List ASTExpr} {x : cg.ClassOrder}
    (h : cg.InfersClass e x) : cg.itemClasses (e :: items) = insert x (cg.itemClasses items) := by
  ext y
  constructor
  · rintro ⟨e', he', hy⟩
    rcases List.mem_cons.mp he' with rfl | he'
    · exact .inl (hy.unique h)
    · exact .inr ⟨e', he', hy⟩
  · rintro (rfl | ⟨e', he', hy⟩)
    · exact ⟨e, List.mem_cons_self, h⟩
    · exact ⟨e', List.mem_cons_of_mem _ he', hy⟩

/-- The outcome of the inference is the least upper bound of classes, or an error when they
have none. -/
def JoinsTo (cg : Cg) (s : Set cg.ClassOrder) (result : CgResult TypeDescriptor) : Prop :=
  (∃ z : cg.ClassOrder, ∃ parentName fields,
    result = .ok (.class z.node parentName fields) ∧ IsLUB s z) ∨
  ((∃ error, result = .error (.failed error)) ∧ ¬ BddAbove s)

/-- **The loop joins the classes of the elements to the class so far.** -/
theorem inferElements_join (hacyclic : cg.NoSelfAncestor) {items : List ASTExpr}
    (hitems : ∀ e ∈ items, ∃ x, cg.InfersClass e x) {s : Set cg.ClassOrder} {z : cg.ClassOrder}
    (hz : IsLUB s z) (p : Option Ident) (fields : List (Ident × TypeDescriptor)) :
    cg.JoinsTo (s ∪ cg.itemClasses items)
      (cg.inferElements (.class z.node p fields) items) := by
  induction items generalizing s z p fields with
  | nil =>
    rw [itemClasses_nil, Set.union_empty, inferElements]
    exact .inl ⟨z, p, fields, rfl, hz⟩
  | cons e items ih =>
    obtain ⟨x, hx⟩ := hitems e List.mem_cons_self
    have hrest : ∀ e ∈ items, ∃ x, cg.InfersClass e x := fun e he =>
      hitems e (List.mem_cons_of_mem _ he)
    have hset : s ∪ cg.itemClasses (e :: items) = insert x s ∪ cg.itemClasses items := by
      rw [itemClasses_cons hx, Set.union_insert, Set.insert_union]
    obtain ⟨q, fields', he⟩ := hx
    rw [hset, inferElements, he]
    show cg.JoinsTo _ (if (TypeDescriptor.class z.node p fields).equals
      (.class x.node q fields') then _ else _)
    rw [TypeDescriptor.equals]
    by_cases hzx : z = x
    · subst hzx
      rw [if_pos (beq_self_eq_true z.node)]
      apply ih hrest
      rw [Ancestry.isLUB_insert_iff hz, Set.pair_eq_singleton]
      exact isLUB_singleton
    · rw [if_neg (by simpa using fun h => hzx (Ancestry.ext h))]
      have hfinds : cg.FindsBound z x (cg.commonSuperclassDesc (.class z.node p fields)
          (.class x.node q fields')) := commonSuperclassDesc_bound hacyclic hzx
      rcases hfinds with ⟨w, p', fields'', hcommon, hw⟩ | ⟨hnone, hbound⟩
      · rw [hcommon]
        exact ih hrest ((Ancestry.isLUB_insert_iff hz).mpr hw) p' fields''
      · rw [hnone]
        refine .inr ⟨⟨_, rfl⟩, fun hbdd => hbound ?_⟩
        exact (Ancestry.bddAbove_insert_iff hz).mp (hbdd.mono Set.subset_union_left)

theorem inferArrayLiteral_join (hacyclic : cg.NoSelfAncestor) {items : List ASTExpr}
    (hne : items ≠ []) (hitems : ∀ e ∈ items, ∃ x, cg.InfersClass e x) :
    ∃ result, cg.inferTypeDesc (.arrayLiteral items) = TypeDescriptor.array <$> result ∧
      cg.JoinsTo (cg.itemClasses items) result := by
  obtain ⟨e, rest, rfl⟩ := List.exists_cons_of_ne_nil hne
  obtain ⟨x, hx⟩ := hitems e List.mem_cons_self
  have hjoin := fun p fields => inferElements_join hacyclic
    (fun e he => hitems e (List.mem_cons_of_mem _ he)) (isLUB_singleton (a := x)) p fields
  rw [itemClasses_cons hx]
  obtain ⟨p, fields, he⟩ := hx
  refine ⟨cg.inferElements (.class x.node p fields) rest, ?_, hjoin p fields⟩
  rw [inferTypeDesc, he]
  rfl

/-- **The element type of a literal is the nearest common superclass of its elements.** -/
structure LiteralJoins (cg : Cg) (items : List ASTExpr) : Prop where
  /-- The literal is accepted when a class is equal to or above all classes. -/
  accepts_iff : (∃ d, cg.inferTypeDesc (.arrayLiteral items) = .ok d) ↔
    BddAbove (cg.itemClasses items)
  rejects : ¬ BddAbove (cg.itemClasses items) →
    ∃ error, cg.inferTypeDesc (.arrayLiteral items) = .error (.failed error)
  nearest : ∀ d, cg.inferTypeDesc (.arrayLiteral items) = .ok d →
    ∃ z : cg.ClassOrder, ∃ parentName fields,
      d = .array (.class z.node parentName fields) ∧ IsLUB (cg.itemClasses items) z
  any_order : ∀ items' : List ASTExpr, items'.Perm items → ∀ d,
    cg.inferTypeDesc (.arrayLiteral items) = .ok d →
      ∃ d', cg.inferTypeDesc (.arrayLiteral items') = .ok d' ∧ d'.equals d = true

/-- The two outcomes for a literal. -/
theorem inferArrayLiteral_cases (hacyclic : cg.NoSelfAncestor) {items : List ASTExpr}
    (hne : items ≠ []) (hitems : ∀ e ∈ items, ∃ x, cg.InfersClass e x) :
    (∃ z : cg.ClassOrder, ∃ parentName fields, cg.inferTypeDesc (.arrayLiteral items) =
      .ok (.array (.class z.node parentName fields)) ∧ IsLUB (cg.itemClasses items) z) ∨
    ((∃ error, cg.inferTypeDesc (.arrayLiteral items) = .error (.failed error)) ∧
      ¬ BddAbove (cg.itemClasses items)) := by
  obtain ⟨result, hresult, hjoin⟩ := inferArrayLiteral_join hacyclic hne hitems
  rw [hresult]
  rcases hjoin with ⟨z, p, fields, rfl, hz⟩ | ⟨⟨error, rfl⟩, hbound⟩
  · exact .inl ⟨z, p, fields, rfl, hz⟩
  · exact .inr ⟨⟨error, rfl⟩, hbound⟩

theorem itemClasses_perm {items items' : List ASTExpr} (h : items'.Perm items) :
    cg.itemClasses items' = cg.itemClasses items := by
  ext x
  constructor
  · rintro ⟨e, he, hx⟩
    exact ⟨e, h.mem_iff.mp he, hx⟩
  · rintro ⟨e, he, hx⟩
    exact ⟨e, h.mem_iff.mpr he, hx⟩

/-- **Array literals are typed by least upper bounds**, in every hierarchy without cycles. -/
theorem arrayLiteral_joins (hacyclic : cg.NoSelfAncestor) (items : List ASTExpr)
    (hne : items ≠ []) (hitems : ∀ e ∈ items, ∃ x, cg.InfersClass e x) : cg.LiteralJoins items := by
  have hcases := inferArrayLiteral_cases hacyclic hne hitems
  have hnearest : ∀ d, cg.inferTypeDesc (.arrayLiteral items) = .ok d →
      ∃ z : cg.ClassOrder, ∃ parentName fields,
        d = .array (.class z.node parentName fields) ∧ IsLUB (cg.itemClasses items) z := by
    intro d hd
    rcases hcases with ⟨z, p, fields, hok, hz⟩ | ⟨⟨error, herror⟩, -⟩
    · exact ⟨z, p, fields, (Except.ok.inj (hok.symm.trans hd)).symm, hz⟩
    · rw [herror] at hd
      exact absurd hd (by simp)
  refine ⟨⟨fun ⟨d, hd⟩ => ?_, fun hbound => ?_⟩, fun hbound => ?_, hnearest, ?_⟩
  · obtain ⟨z, -, -, -, hz⟩ := hnearest d hd
    exact ⟨z, hz.1⟩
  · rcases hcases with ⟨z, p, fields, hok, -⟩ | ⟨-, hnot⟩
    · exact ⟨_, hok⟩
    · exact absurd hbound hnot
  · rcases hcases with ⟨z, p, fields, -, hz⟩ | ⟨herror, -⟩
    · exact absurd ⟨z, hz.1⟩ hbound
    · exact herror
  · intro items' hperm d hd
    obtain ⟨z, p, fields, rfl, hz⟩ := hnearest d hd
    have hne' : items' ≠ [] := fun h => hne (by simpa [h] using hperm.symm)
    rcases inferArrayLiteral_cases hacyclic hne' fun e he => hitems e (hperm.mem_iff.mp he) with
      ⟨z', p', fields', hok, hz'⟩ | ⟨-, hnot⟩
    · rw [itemClasses_perm hperm] at hz'
      obtain rfl : z' = z :=
        Ancestry.eq_of_le_of_le (hacyclic.names z') (hz'.2 hz.1) (hz.2 hz'.1)
      refine ⟨_, hok, ?_⟩
      simp [TypeDescriptor.equals]
    · rw [itemClasses_perm hperm] at hnot
      exact absurd ⟨z, hz.1⟩ hnot

end Cg

/-! ### Two classes with one parent -/

/-- `class Shape`, `class Circle extends Shape` and `class Square extends Shape`. -/
def shapes : List ASTClassDecl :=
  [⟨"Shape".toList, none, [], [], none⟩, ⟨"Circle".toList, some "Shape".toList, [], [], none⟩,
    ⟨"Square".toList, some "Shape".toList, [], [], none⟩]

/-- The generator after these declarations. -/
def shapesCg : Cg :=
  { Cg.init with classes := (shapes.map ASTClassDecl.cgClass).reverse }

theorem shapes_noSelfAncestor : shapesCg.NoSelfAncestor := by
  have hdeclare : declareClasses shapes Cg.init = .ok shapesCg := rfl
  refine (noSelfAncestor_iff hdeclare).mpr fun name hcycle => ?_
  have hedge : ∀ d ∈ shapes, ∀ y, d.parentName = some y →
      d.name ≠ "Shape".toList ∧ y = "Shape".toList := by
    intro d hd y hy
    simp only [shapes, List.mem_cons, List.not_mem_nil, or_false] at hd
    rcases hd with rfl | rfl | rfl
    · exact absurd hy (by simp)
    · exact ⟨by decide, (Option.some.inj hy).symm⟩
    · exact ⟨by decide, (Option.some.inj hy).symm⟩
  obtain ⟨_, ⟨d, hd, hname, hparent⟩, -⟩ := TransGen.head'_iff.mp hcycle
  obtain ⟨_, -, ⟨e, he, -, hlast⟩⟩ := TransGen.tail'_iff.mp hcycle
  exact (hedge d hd _ hparent).1 (hname.trans (hedge e he _ hlast).2)

/-- `[Circle(), Square()]` is an array of `Shape`. -/
theorem shapes_join : shapesCg.LiteralJoins
    [.call "Circle".toList [], .call "Square".toList []] := by
  refine Cg.arrayLiteral_joins shapes_noSelfAncestor _ (List.cons_ne_nil _ _) fun e he => ?_
  rcases List.mem_cons.mp he with rfl | he
  · exact ⟨⟨"Circle".toList⟩, some "Shape".toList, [], rfl⟩
  · rw [List.mem_singleton.mp he]
    exact ⟨⟨"Square".toList⟩, some "Shape".toList, [], rfl⟩

end BreadLang
