import BreadLang.Codegen.Hierarchy
import BreadLang.Library.Gathering

/-!
# The lists of inherited members

`cg_collect_all_fields` and `cg_collect_all_methods` with their arrays: the names are counted in
one walk over the ancestors, an array of that length is allocated, and it is filled in another.
The arrays are refinements of `Walk.collect` and `Walk.gather`, which have no bounds.

A class may declare two methods of one name.  The names of the ancestors are compared with
those that are there, but the class's own names are not.
-/

namespace BreadLang

namespace MemberLists

variable (cg : Cg)

/-- The names of the fields of a class. -/
def fieldNames (c : CgClass) : List Ident := c.fields.map Prod.fst

/-- The names of the methods of a class. -/
def methodNames (c : CgClass) : List Ident := c.methods.map ASTFuncDecl.name

/-- A count of type `int`; an overflow is undefined. -/
def checkedCount (x : ℕ) : CgResult ℕ :=
  if (x : ℤ) ≤ intMax then .ok x else .error .crashed

/-- The loop that adds up the lengths of the members, from a class on. -/
def countLoop (names : CgClass → List Ident) : ℕ → Option CgClass → ℕ → CgResult ℕ
  | 0, _, _ => .error .diverges
  | _ + 1, none, count => return count
  | n + 1, some c, count => do
      countLoop names n (cg.parentClass c) (← checkedCount (count + (names c).length))

/-- A write behind the names that an array has, which must have a place for it. -/
def writeName (capacity : ℕ) (names : List Ident) (name : Ident) : CgResult (List Ident) :=
  if names.length < capacity then return names ++ [name] else .error .crashed

/-- The copies of the first names of an array, which must have been written. -/
def copyNames (capacity count : ℕ) (source names : List Ident) : CgResult (List Ident) :=
  if source.length < count then .error .crashed
  else (source.take count).foldlM (writeName capacity) names

/-- `cg_collect_all_fields`: the array and its length. -/
def collectAllFields : ℕ → CgClass → CgResult (List Ident × ℕ)
  | 0, _ => .error .diverges
  | n + 1, c => do
      let total ← countLoop cg fieldNames (n + 2) (some c) 0
      if total = 0 then return ([], 0)
      else
        let inherited ← match cg.parentClass c with
          | none => .ok []
          | some parent => do
              let (fields, count) ← collectAllFields n parent
              copyNames total count fields []
        let names ← (fieldNames c).foldlM (writeName total) inherited
        return (names, total)

/-- The body of the loop over the methods of an ancestor. -/
def addName (capacity : ℕ) (known : List Ident) (name : Ident) : CgResult (List Ident) :=
  if known.contains name then return known else writeName capacity known name

/-- The loop over the ancestors. -/
def parentMethods (capacity : ℕ) : ℕ → Option CgClass → List Ident → CgResult (List Ident)
  | 0, _, _ => .error .diverges
  | _ + 1, none, known => return known
  | n + 1, some c, known => do
      let known ← (methodNames c).foldlM (addName capacity) known
      parentMethods capacity n (cg.parentClass c) known

/-- `cg_collect_all_methods`: the array, as far as it has been written. -/
def collectAllMethods (n : ℕ) (c : CgClass) : CgResult (List Ident) := do
  let count ← checkedCount (methodNames c).length
  let count ← countLoop cg methodNames n (cg.parentClass c) count
  if count = 0 then return []
  else
    let names ← (methodNames c).foldlM (writeName count) []
    parentMethods cg count n (cg.parentClass c) names

variable {cg} {names : CgClass → List Ident} {known l : List Ident} {capacity n count : ℕ}
  {c : CgClass} {ancestors : List CgClass}

/-! ### Counting -/

theorem checkedCount_of_le (h : (count : ℤ) ≤ intMax) : checkedCount count = .ok count :=
  if_pos h

theorem eq_of_checkedCount {count' : ℕ} (h : checkedCount count = .ok count') :
    count' = count ∧ (count : ℤ) ≤ intMax := by
  unfold checkedCount at h
  split at h
  · next hle => exact ⟨(Except.ok.inj h).symm, hle⟩
  · cases h

/-- The loop adds up the lengths along the chain. -/
theorem countLoop_of_chain (h : Walk.chain cg.parentClass n c = some ancestors)
    (hle : ((count + (ancestors.flatMap names).length : ℕ) : ℤ) ≤ intMax) :
    countLoop cg names (n + 1) (some c) count = .ok (count + (ancestors.flatMap names).length) := by
  induction n generalizing c ancestors count with
  | zero => cases h
  | succ n ih =>
    obtain ⟨rest, rfl⟩ := Walk.exists_chain_cons h
    rw [List.flatMap_cons, List.length_append] at hle ⊢
    rw [countLoop, checkedCount_of_le (by omega)]
    cases hparent : cg.parentClass c with
    | none =>
      rw [Walk.chain_succ_none hparent] at h
      obtain rfl : [] = rest := (List.cons.inj (Option.some.inj h)).2
      rfl
    | some parent =>
      rw [Walk.chain_succ_some hparent, Option.map_eq_some_iff] at h
      obtain ⟨l, hl, heq⟩ := h
      obtain rfl : l = rest := (List.cons.inj heq).2
      show countLoop cg names (n + 1) (some parent) _ = _
      rw [ih hl (by omega), Nat.add_assoc]

/-- Where the loop returns, the chain has ended and the count is an `int`. -/
theorem countLoop_eq_ok {count' : ℕ} (h : countLoop cg names n (some c) count = .ok count') :
    ∃ l, Walk.chain cg.parentClass n c = some l ∧ count' = count + (l.flatMap names).length ∧
      (count' : ℤ) ≤ intMax := by
  induction n generalizing c count with
  | zero => cases h
  | succ n ih =>
    rw [countLoop] at h
    obtain ⟨middle, hmiddle, h⟩ := bind_eq_ok.mp h
    obtain ⟨rfl, hle⟩ := eq_of_checkedCount hmiddle
    cases hparent : cg.parentClass c with
    | none =>
      rw [hparent] at h
      cases n with
      | zero => cases h
      | succ n =>
        obtain rfl := Except.ok.inj h
        exact ⟨[c], Walk.chain_succ_none hparent, by simp, hle⟩
    | some parent =>
      rw [hparent] at h
      obtain ⟨l, hl, rfl, hle⟩ := ih h
      refine ⟨c :: l, by rw [Walk.chain_succ_some hparent, hl, Option.map_some], ?_, hle⟩
      rw [List.flatMap_cons, List.length_append, Nat.add_assoc]

/-! ### Writing -/

theorem foldlM_writeName (h : known.length + l.length ≤ capacity) :
    l.foldlM (writeName capacity) known = .ok (known ++ l) := by
  induction l generalizing known with
  | nil => simp [pure, Except.pure]
  | cons name l ih =>
    rw [List.length_cons] at h
    have hwrite : writeName capacity known name = .ok (known ++ [name]) := if_pos (by omega)
    rw [List.foldlM_cons, hwrite]
    show l.foldlM (writeName capacity) (known ++ [name]) = _
    rw [ih (by rw [List.length_append, List.length_singleton]; omega), List.append_assoc,
      List.singleton_append]

/-- Where the writes succeed, the array has the names behind those it had. -/
theorem foldlM_writeName_eq_ok {known' : List Ident}
    (h : l.foldlM (writeName capacity) known = .ok known') : known' = known ++ l := by
  induction l generalizing known with
  | nil =>
    obtain rfl := Except.ok.inj h
    simp
  | cons name l ih =>
    rw [List.foldlM_cons] at h
    obtain ⟨middle, hmiddle, h⟩ := bind_eq_ok.mp h
    unfold writeName at hmiddle
    split at hmiddle
    · obtain rfl := Except.ok.inj hmiddle
      rw [ih h, List.append_assoc, List.singleton_append]
    · cases hmiddle

theorem copyNames_eq (h : known.length + l.length ≤ capacity) :
    copyNames capacity l.length l known = .ok (known ++ l) := by
  rw [copyNames, if_neg (lt_irrefl _), List.take_length, foldlM_writeName h]

/-- The names of an ancestor that are new are written. -/
theorem foldlM_addName (h : (Walk.addNew known l).length ≤ capacity) :
    l.foldlM (addName capacity) known = .ok (Walk.addNew known l) := by
  induction l generalizing known with
  | nil => rfl
  | cons name l ih =>
    by_cases hmem : name ∈ known
    · rw [Walk.addNew_cons_of_mem hmem] at h ⊢
      have hadd : addName capacity known name = .ok known := if_pos (by simpa using hmem)
      rw [List.foldlM_cons, hadd]
      exact ih h
    · rw [Walk.addNew_cons_of_notMem hmem] at h ⊢
      have hprefix : known ++ [name] <+: Walk.addNew (known ++ [name]) l := Walk.prefix_addNew
      have hlength := hprefix.length_le
      rw [List.length_append, List.length_singleton] at hlength
      have hadd : addName capacity known name = .ok (known ++ [name]) := by
        rw [addName, if_neg (by simpa using hmem), writeName, if_pos (by omega)]
        rfl
      rw [List.foldlM_cons, hadd]
      exact ih h

/-- What is known stays at the front. -/
theorem prefix_of_foldlM_addName {known' : List Ident}
    (h : l.foldlM (addName capacity) known = .ok known') : known <+: known' := by
  induction l generalizing known with
  | nil =>
    obtain rfl := Except.ok.inj h
    exact List.prefix_rfl
  | cons name l ih =>
    rw [List.foldlM_cons] at h
    obtain ⟨middle, hmiddle, h⟩ := bind_eq_ok.mp h
    refine List.IsPrefix.trans ?_ (ih h)
    unfold addName writeName at hmiddle
    split at hmiddle
    · obtain rfl := Except.ok.inj hmiddle
      exact List.prefix_rfl
    · split at hmiddle
      · obtain rfl := Except.ok.inj hmiddle
        exact List.prefix_append _ _
      · cases hmiddle

/-! ### The fields -/

/-- **The fields of a chain that ends are in the array, those of the root first.** -/
theorem collectAllFields_of_chain (h : Walk.chain cg.parentClass n c = some ancestors)
    (hle : ((ancestors.flatMap fieldNames).length : ℤ) ≤ intMax) :
    collectAllFields cg n c =
      .ok (ancestors.reverse.flatMap fieldNames, (ancestors.flatMap fieldNames).length) := by
  induction n generalizing c ancestors with
  | zero => cases h
  | succ n ih =>
    have hcount : countLoop cg fieldNames (n + 2) (some c) 0 =
        .ok (0 + (ancestors.flatMap fieldNames).length) :=
      countLoop_of_chain h (by simpa using hle)
    rw [Nat.zero_add] at hcount
    rw [collectAllFields, hcount]
    show (if (ancestors.flatMap fieldNames).length = 0 then _ else _) = _
    split
    · next hzero =>
      -- no class of the chain has a field
      have hnone := List.flatMap_eq_nil_iff.mp (List.length_eq_zero_iff.mp hzero)
      have hempty : ancestors.reverse.flatMap fieldNames = [] :=
        List.flatMap_eq_nil_iff.mpr fun a ha => hnone a (List.mem_reverse.mp ha)
      rw [hempty, hzero]
      rfl
    · obtain ⟨rest, rfl⟩ := Walk.exists_chain_cons h
      have hsum : ((c :: rest).flatMap fieldNames).length =
          (fieldNames c).length + (rest.flatMap fieldNames).length := by
        rw [List.flatMap_cons, List.length_append]
      have hrest : (rest.reverse.flatMap fieldNames).length = (rest.flatMap fieldNames).length :=
        (List.Perm.flatMap_right fieldNames rest.reverse_perm).length_eq
      rw [List.reverse_cons, List.flatMap_append, List.flatMap_singleton]
      cases hparent : cg.parentClass c with
      | none =>
        rw [Walk.chain_succ_none hparent] at h
        obtain rfl : [] = rest := (List.cons.inj (Option.some.inj h)).2
        show ((fieldNames c).foldlM (writeName _) [] >>= _) = _
        rw [foldlM_writeName (by rw [hsum, List.length_nil]; omega)]
        rfl
      | some parent =>
        rw [Walk.chain_succ_some hparent, Option.map_eq_some_iff] at h
        obtain ⟨l, hl, heq⟩ := h
        obtain rfl : l = rest := (List.cons.inj heq).2
        dsimp only
        rw [ih hl (by omega)]
        show (copyNames _ (l.flatMap fieldNames).length (l.reverse.flatMap fieldNames) [] >>= _) = _
        rw [← hrest, copyNames_eq (by rw [hsum, hrest, List.length_nil]; omega), List.nil_append]
        show ((fieldNames c).foldlM (writeName _) _ >>= _) = _
        rw [foldlM_writeName (by rw [hsum, hrest]; omega)]
        rfl

/-- Where the fields are collected, their number is an `int`. -/
theorem length_le_of_collectAllFields {result : List Ident × ℕ}
    (h : collectAllFields cg n c = .ok result) :
    ∃ m l, Walk.chain cg.parentClass m c = some l ∧
      ((l.flatMap fieldNames).length : ℤ) ≤ intMax := by
  cases n with
  | zero => cases h
  | succ n =>
    obtain ⟨total, htotal, -⟩ := bind_eq_ok.mp h
    obtain ⟨l, hl, rfl, hle⟩ := countLoop_eq_ok htotal
    exact ⟨n + 2, l, hl, by simpa using hle⟩

/-! ### The methods -/

theorem countLoop_parent (h : Walk.chain cg.parentClass n c = some (c :: ancestors))
    (hle : ((count + (ancestors.flatMap names).length : ℕ) : ℤ) ≤ intMax) :
    countLoop cg names n (cg.parentClass c) count =
      .ok (count + (ancestors.flatMap names).length) := by
  cases n with
  | zero => cases h
  | succ n =>
    cases hparent : cg.parentClass c with
    | none =>
      rw [Walk.chain_succ_none hparent] at h
      obtain rfl : [] = ancestors := (List.cons.inj (Option.some.inj h)).2
      rfl
    | some parent =>
      rw [Walk.chain_succ_some hparent, Option.map_eq_some_iff] at h
      obtain ⟨l, hl, heq⟩ := h
      obtain rfl : l = ancestors := (List.cons.inj heq).2
      exact countLoop_of_chain hl hle

theorem parentMethods_of_chain (h : Walk.chain cg.parentClass n c = some ancestors)
    (hle : (Walk.addAll methodNames known ancestors).length ≤ capacity) :
    parentMethods cg capacity (n + 1) (some c) known =
      .ok (Walk.addAll methodNames known ancestors) := by
  induction n generalizing c ancestors known with
  | zero => cases h
  | succ n ih =>
    obtain ⟨rest, rfl⟩ := Walk.exists_chain_cons h
    rw [Walk.addAll_cons] at hle ⊢
    have hprefix : Walk.addNew known (methodNames c) <+:
        Walk.addAll methodNames (Walk.addNew known (methodNames c)) rest := Walk.prefix_addAll
    have hlength := hprefix.length_le
    rw [parentMethods, foldlM_addName (by omega)]
    show parentMethods cg capacity (n + 1) (cg.parentClass c) _ = _
    cases hparent : cg.parentClass c with
    | none =>
      rw [Walk.chain_succ_none hparent] at h
      obtain rfl : [] = rest := (List.cons.inj (Option.some.inj h)).2
      rfl
    | some parent =>
      rw [Walk.chain_succ_some hparent, Option.map_eq_some_iff] at h
      obtain ⟨l, hl, heq⟩ := h
      obtain rfl : l = rest := (List.cons.inj heq).2
      exact ih hl hle

/-- **The methods of a chain that ends are in the array**: the class's own, and then, ancestor
by ancestor, those that are new. -/
theorem collectAllMethods_of_chain (h : Walk.chain cg.parentClass n c = some (c :: ancestors))
    (hle : (((c :: ancestors).flatMap methodNames).length : ℤ) ≤ intMax) :
    collectAllMethods cg n c = .ok (Walk.addAll methodNames (methodNames c) ancestors) := by
  rw [List.flatMap_cons, List.length_append] at hle
  have hlength : (Walk.addAll methodNames (methodNames c) ancestors).length ≤
      (methodNames c).length + (ancestors.flatMap methodNames).length := Walk.length_addAll_le
  rw [collectAllMethods, checkedCount_of_le (by omega)]
  show (countLoop cg methodNames n (cg.parentClass c) _ >>= _) = _
  rw [countLoop_parent h hle]
  show (if (methodNames c).length + (ancestors.flatMap methodNames).length = 0 then _ else _) = _
  split
  · next hzero =>
    have hempty : (Walk.addAll methodNames (methodNames c) ancestors).length = 0 := by omega
    rw [List.length_eq_zero_iff.mp hempty]
    rfl
  · rw [foldlM_writeName (by rw [List.length_nil]; omega), List.nil_append]
    show parentMethods cg _ n (cg.parentClass c) (methodNames c) = _
    cases n with
    | zero => cases h
    | succ n =>
      cases hparent : cg.parentClass c with
      | none =>
        rw [Walk.chain_succ_none hparent] at h
        obtain rfl : [] = ancestors := (List.cons.inj (Option.some.inj h)).2
        rfl
      | some parent =>
        rw [Walk.chain_succ_some hparent, Option.map_eq_some_iff] at h
        obtain ⟨l, hl, heq⟩ := h
        obtain rfl : l = ancestors := (List.cons.inj heq).2
        exact parentMethods_of_chain hl hlength

theorem prefix_of_parentMethods {parent : Option CgClass} {known' : List Ident}
    (h : parentMethods cg capacity n parent known = .ok known') : known <+: known' := by
  induction n generalizing parent known with
  | zero => cases h
  | succ n ih =>
    cases parent with
    | none =>
      obtain rfl := Except.ok.inj h
      exact List.prefix_rfl
    | some c =>
      obtain ⟨middle, hmiddle, h⟩ := bind_eq_ok.mp h
      exact (prefix_of_foldlM_addName hmiddle).trans (ih h)

/-- Where the methods are collected, the class's own are all at the front, and their number
is an `int`. -/
theorem collectAllMethods_eq_ok {result : List Ident} (h : collectAllMethods cg n c = .ok result) :
    methodNames c <+: result ∧ ∃ m l, Walk.chain cg.parentClass m c = some l ∧
      ((l.flatMap methodNames).length : ℤ) ≤ intMax := by
  obtain ⟨own, hown, h⟩ := bind_eq_ok.mp h
  obtain ⟨rfl, hle⟩ := eq_of_checkedCount hown
  obtain ⟨total, htotal, h⟩ := bind_eq_ok.mp h
  have hchain : ∃ m l, Walk.chain cg.parentClass m c = some l ∧
      total = (l.flatMap methodNames).length ∧ (total : ℤ) ≤ intMax := by
    cases hparent : cg.parentClass c with
    | none =>
      rw [hparent] at htotal
      cases n with
      | zero => cases htotal
      | succ n =>
        obtain rfl := Except.ok.inj htotal
        exact ⟨1, [c], Walk.chain_succ_none hparent, by simp, hle⟩
    | some parent =>
      rw [hparent] at htotal
      obtain ⟨l, hl, rfl, hle⟩ := countLoop_eq_ok htotal
      refine ⟨n + 1, c :: l, by rw [Walk.chain_succ_some hparent, hl, Option.map_some], ?_, hle⟩
      rw [List.flatMap_cons, List.length_append]
  obtain ⟨m, l, hl, rfl, hle⟩ := hchain
  refine ⟨?_, m, l, hl, hle⟩
  split at h
  · next hzero =>
    obtain ⟨rest, rfl⟩ := Walk.exists_chain_cons hl
    have hnone := List.flatMap_eq_nil_iff.mp (List.length_eq_zero_iff.mp hzero)
    rw [hnone c List.mem_cons_self]
    exact List.nil_prefix
  · obtain ⟨names, hnames, h⟩ := bind_eq_ok.mp h
    obtain rfl := foldlM_writeName_eq_ok hnames
    exact prefix_of_parentMethods h

/-! ### The lists without bounds -/

/-- The array of fields holds what the walk without arrays collects. -/
theorem collectAllFields_refines (h : Walk.chain cg.parentClass n c = some ancestors)
    (hle : ((ancestors.flatMap fieldNames).length : ℤ) ≤ intMax) :
    ∃ fields, cg.collectAllFieldsIn n c = some fields ∧
      collectAllFields cg n c = .ok (fields, fields.length) := by
  refine ⟨ancestors.reverse.flatMap fieldNames, ?_, ?_⟩
  · rw [Cg.collectAllFieldsIn, Walk.collect_eq, h]
    rfl
  · rw [collectAllFields_of_chain h hle,
      (List.Perm.flatMap_right fieldNames ancestors.reverse_perm).length_eq]

/-- The array of methods holds what the walk without arrays gathers. -/
theorem collectAllMethods_refines (h : Walk.chain cg.parentClass n c = some (c :: ancestors))
    (hle : (((c :: ancestors).flatMap methodNames).length : ℤ) ≤ intMax) :
    ∃ methods, cg.collectAllMethodsIn n c = some methods ∧
      collectAllMethods cg n c = .ok methods :=
  ⟨_, Walk.gather_of_chain h, collectAllMethods_of_chain h hle⟩

/-! ### Complete lists -/

/-- The list holds every method name of the classes once: those of the first class first, and
the others by the distance of the nearest class that defines them. -/
structure MethodsListed (ancestors : List CgClass) (c : CgClass) (names : List Ident) : Prop where
  nodup : names.Nodup
  mem_iff : ∀ name, name ∈ names ↔ ∃ a ∈ ancestors, name ∈ methodNames a
  own_first : methodNames c <+: names
  by_distance : names.Pairwise fun x y =>
    Walk.firstPlace methodNames ancestors x ≤ Walk.firstPlace methodNames ancestors y

/-- The arrays of a class hold the members of the class and its ancestors. -/
structure MembersComplete (cg : Cg) (c : CgClass) (ancestors : List CgClass) : Prop where
  methods : ∃ n names, collectAllMethods cg n c = .ok names ∧ MethodsListed ancestors c names
  fields : ∃ n, collectAllFields cg n c =
    .ok (ancestors.reverse.flatMap fieldNames, (ancestors.flatMap fieldNames).length)

theorem methodsListed (hown : (methodNames c).Nodup) : MethodsListed (c :: ancestors) c
    (Walk.addAll methodNames (methodNames c) ancestors) := by
  have hself : Walk.addAll methodNames [] (c :: ancestors) =
      Walk.addAll methodNames (methodNames c) ancestors := by
    rw [Walk.addAll_cons, Walk.addNew_nil_eq_self hown]
  refine ⟨Walk.nodup_addAll hown, fun name => ?_, Walk.prefix_addAll, ?_⟩
  · rw [← hself, Walk.mem_addAll]
    simp
  · rw [← hself]
    exact Walk.pairwise_addAll

/-- **The lists of inherited members are complete exactly when the class declares no method
twice** (and the numbers of members are of type `int`). -/
theorem membersComplete_iff (h : cg.NoSelfAncestor) (hc : c ∈ cg.classes) :
    ∃ ancestors, (∃ n, Walk.chain cg.parentClass n c = some ancestors) ∧
      (MembersComplete cg c ancestors ↔ (methodNames c).Nodup ∧
        ((ancestors.flatMap methodNames).length : ℤ) ≤ intMax ∧
        ((ancestors.flatMap fieldNames).length : ℤ) ≤ intMax) := by
  obtain ⟨n, ancestors, hchain⟩ := h.exists_chain hc
  refine ⟨ancestors, ⟨n, hchain⟩, ?_⟩
  constructor
  · rintro ⟨⟨m, names, hnames, hlisted⟩, ⟨k, hfields⟩⟩
    obtain ⟨hown, m', l, hl, hmethods⟩ := collectAllMethods_eq_ok hnames
    obtain ⟨k', l', hl', hcount⟩ := length_le_of_collectAllFields hfields
    obtain rfl := Walk.chain_unique hchain hl
    obtain rfl := Walk.chain_unique hchain hl'
    exact ⟨hlisted.nodup.sublist hown.sublist, hmethods, hcount⟩
  · rintro ⟨hown, hmethods, hfields⟩
    obtain ⟨rest, rfl⟩ := Walk.exists_chain_cons hchain
    exact ⟨⟨n, _, collectAllMethods_of_chain hchain hmethods, methodsListed hown⟩,
      n, collectAllFields_of_chain hchain hfields⟩

/-- A method without parameters and statements. -/
def emptyMethod (name : String) : FuncDecl :=
  ⟨name.toList, [], .typeNil, some .nil, some []⟩

/-- `class Base { x: Int; def m() {} }` and `class Derived extends Base { y: Int; def m() {} }`. -/
def baseAndDerived : List ASTClassDecl :=
  [⟨"Base".toList, none, [("x".toList, .int)], [emptyMethod "m"], none⟩,
    ⟨"Derived".toList, some "Base".toList, [("y".toList, .int)], [emptyMethod "m"], none⟩]

/-- The generator after these declarations. -/
def baseAndDerivedCg : Cg :=
  { Cg.init with classes := (baseAndDerived.map ASTClassDecl.cgClass).reverse }

theorem baseAndDerived_noSelfAncestor : baseAndDerivedCg.NoSelfAncestor := by
  have hdeclare : declareClasses baseAndDerived Cg.init = .ok baseAndDerivedCg := rfl
  refine (noSelfAncestor_iff hdeclare).mpr fun name hcycle => ?_
  have hedge : ∀ x y, NamesParent baseAndDerived x y →
      x = "Derived".toList ∧ y = "Base".toList := by
    rintro x y ⟨d, hd, rfl, hparent⟩
    rcases List.mem_cons.mp hd with rfl | hd
    · exact absurd hparent (by simp)
    · rw [List.mem_singleton.mp hd] at hparent ⊢
      exact ⟨rfl, (Option.some.inj hparent).symm⟩
  obtain ⟨_, hfirst, -⟩ := Relation.TransGen.head'_iff.mp hcycle
  obtain ⟨_, -, hlast⟩ := Relation.TransGen.tail'_iff.mp hcycle
  have hsame : "Derived".toList = "Base".toList :=
    (hedge _ _ hfirst).1.symm.trans (hedge _ _ hlast).2
  exact absurd hsame (by decide)

/-- The members of the class, with a method that overrides another. -/
theorem derived_membersComplete : ∃ c ∈ baseAndDerivedCg.classes, ∃ ancestors,
    (∃ n, Walk.chain baseAndDerivedCg.parentClass n c = some ancestors) ∧
      ancestors = baseAndDerivedCg.classes ∧ MembersComplete baseAndDerivedCg c ancestors := by
  have hc : baseAndDerivedCg.classes[0] ∈ baseAndDerivedCg.classes := List.mem_cons_self
  refine ⟨baseAndDerivedCg.classes[0], hc, ?_⟩
  obtain ⟨ancestors, ⟨n, hchain⟩, hiff⟩ := membersComplete_iff baseAndDerived_noSelfAncestor hc
  have hlist : Walk.chain baseAndDerivedCg.parentClass 2 baseAndDerivedCg.classes[0] =
      some baseAndDerivedCg.classes := rfl
  obtain rfl := Walk.chain_unique hchain hlist
  exact ⟨_, ⟨n, hchain⟩, rfl, hiff.mpr ⟨by decide, by decide, by decide⟩⟩

/-- `class A { def m() {}; def m() {} }`. -/
def declaredTwice : ASTClassDecl :=
  ⟨"A".toList, none, [], [emptyMethod "m", emptyMethod "m"], none⟩

/-- The generator after this declaration. -/
def declaredTwiceCg : Cg := { Cg.init with classes := [declaredTwice.cgClass] }

/-- The declaration is accepted, and the method is in the list twice. -/
theorem declaredTwice_listed_twice :
    declareClasses [declaredTwice] Cg.init = .ok declaredTwiceCg ∧
      declaredTwiceCg.NoSelfAncestor ∧
      collectAllMethods declaredTwiceCg 1 declaredTwice.cgClass =
        .ok ["m".toList, "m".toList] ∧
      ∀ ancestors, ¬ MembersComplete declaredTwiceCg declaredTwice.cgClass ancestors := by
  refine ⟨rfl, fun c hcycle => ?_, rfl, fun ancestors h => ?_⟩
  · have hmem := mem_of_ancestor hcycle
    rw [List.mem_singleton.mp hmem] at hcycle
    obtain ⟨_, hfirst, -⟩ := Relation.TransGen.head'_iff.mp hcycle
    have hnone : declaredTwiceCg.parentClass declaredTwice.cgClass = none := rfl
    rw [Cg.ParentOf, hnone] at hfirst
    exact absurd hfirst (by simp)
  obtain ⟨n, names, -, hlisted⟩ := h.methods
  have hown : (methodNames declaredTwice.cgClass).Nodup :=
    hlisted.nodup.sublist hlisted.own_first.sublist
  exact absurd hown (by decide)

end MemberLists

end BreadLang
