import BreadLang.Codegen.Hierarchy
import BreadLang.Runtime.CompiledCalls

/-!
# Instances and inherited methods

An instance is made from the definition of its class.  It collects the fields of
the whole chain, and copies the compiled methods under the names that it is given.
A method call looks at the instance first and then at the definitions of its
ancestors.

The registry is the one that `cg_connect_all_classes_to_runtime` builds from
classes with different names whose parents are all declared and make no cycle
(`Connected`).  Its definitions follow the classes step by step (`Defines`), which
carries what the generator knows of a class to what the runtime finds.
-/

namespace BreadLang

namespace ClassRegistry

variable {F : Type}

/-! ### Instances -/

/-- The instance of a definition, once the names of its fields are collected. -/
def instanceOf (classDef : ClassObject F) (className : Ident) (parentName : Option Ident)
    (fieldNames methodNames : List Ident) : ClassObject F where
  className := className
  parentName := parentName
  parentClass := classDef.parentClass
  fieldNames := fieldNames
  fieldValues := fieldNames.map fun _ => .nil
  methodNames := methodNames
  compiledMethods := methodNames.map fun name =>
    (classDef.findMethodIndex name).bind classDef.compiledMethod
  compiledConstructor := classDef.compiledConstructor

/-- `bread_class_create_instance`.  The arguments are the names that the caller
passes; there is no result when the walk over the parents is longer than the
bound. -/
def createInstance (registry : Registry F) (n : ℕ) (className : Ident)
    (parentName : Option Ident) (fieldNames methodNames : List Ident) :
    Option (ClassObject F) :=
  match findDefinition registry className with
  | none => some (.newWithMethods className parentName fieldNames methodNames)
  | some classDef =>
      (collectAllFields registry n classDef).map fun allFieldNames =>
        instanceOf classDef className parentName allFieldNames methodNames

/-- The methods that are part of the runtime. -/
def interceptedMethods : List Ident :=
  ["toString".toList, "append".toList]

local instance lawfulBEqIdent : LawfulBEq Ident :=
  inferInstanceAs (LawfulBEq (List Char))

/-- `bread_method_call_op` on an instance of a class, at the reference `target`.
The built-in methods report an error: `toString` does not convert an instance, and
`append` wants an array. -/
def methodCallOp (code : CompiledCode F) (registry : Registry F) (n : ℕ)
    (target : Ref) (name : Ident) (argc : ℤ) (args : ℕ → BreadValue) (s : CallState F) :
    Option (Option BreadValue × CallState F) :=
  if name ∈ interceptedMethods then some (none, s)
  else if name = initName then some (executeConstructor code target argc args s)
  else
    (findMethodDefiningClass registry name n (s.objects target)).map fun found =>
      match found with
      | some (definingClass, index) =>
          executeMethod code definingClass index target argc args s
      | none => (none, s)

/-! ### What a definition has compiled -/

/-- The function that a class has compiled for a method: the last one of that
name. -/
def lastImplementation (address : LLVMFunction → Option F) (name : Ident) :
    List (FuncDecl × Option LLVMFunction) → Option F
  | [] => none
  | (decl, fn) :: methods =>
      (lastImplementation address name methods).or
        (if decl.name = name then fn.bind address else none)

/-- The compiled implementation of a method in a class. -/
def implementation (c : CgClass) (address : LLVMFunction → Option F) (name : Ident) :
    Option F :=
  lastImplementation address name (c.methods.zip c.methodFunctions)

/-- The compiled constructor of a class. -/
def constructorImplementation (c : CgClass) (address : LLVMFunction → Option F) : Option F :=
  c.constructor.bind fun _ => c.constructorFunction.bind address

section Compiled

variable {d : ClassObject F} {name : Ident} {i : ℕ}

theorem methodNames_of_findMethodIndex (h : d.findMethodIndex name = some i) :
    d.methodNames[i]? = some name := by
  obtain ⟨hlt, heq, -⟩ := List.findIdx?_eq_some_iff_getElem.mp h
  rw [List.getElem?_eq_getElem hlt, eq_of_beq heq]

/-- What setting a method does to the method of that name. -/
theorem compiledMethod_set {name' : Ident} {j : ℕ} (hi : d.findMethodIndex name = some i)
    (hj : d.findMethodIndex name' = some j)
    (hlength : d.compiledMethods.length = d.methodNames.length) (fn : F) :
    (d.setCompiledMethod j fn).compiledMethod i =
      if name' = name then some fn else d.compiledMethod i := by
  have hname := methodNames_of_findMethodIndex hi
  have hname' := methodNames_of_findMethodIndex hj
  unfold ClassObject.setCompiledMethod ClassObject.compiledMethod
  by_cases heq : name' = name
  · subst heq
    have hij : i = j := Option.some.inj (hi.symm.trans hj)
    have hlt : j < d.compiledMethods.length := by
      rw [hlength]
      exact (List.getElem?_eq_some_iff.mp hname').1
    simp [hij, hlt]
  · have hij : j ≠ i := by
      rintro rfl
      exact heq (Option.some.inj (hname'.symm.trans hname))
    simp [List.getElem?_set_ne hij, heq]

/-- **The loop that connects the methods leaves the last one under each name.** -/
theorem compiledMethod_connect {address : LLVMFunction → Option F}
    (methods : List (FuncDecl × Option LLVMFunction)) {d : ClassObject F}
    (hi : d.findMethodIndex name = some i)
    (hlength : d.compiledMethods.length = d.methodNames.length) :
    (connectMethods address methods d).compiledMethod i =
      (lastImplementation address name methods).or (d.compiledMethod i) := by
  induction methods generalizing d with
  | nil => rfl
  | cons m methods ih =>
      obtain ⟨decl, fn⟩ := m
      rw [connectMethods, lastImplementation, Option.or_assoc]
      split
      · rename_i j compiled hj hcompiled
        have hset := compiledMethod_set hi hj hlength compiled
        rw [ih (d := d.setCompiledMethod j compiled) hi (List.length_set.trans hlength), hset,
          hcompiled]
        by_cases heq : decl.name = name <;> simp [heq]
      · rename_i hnone
        rw [ih hi hlength]
        by_cases heq : decl.name = name
        · subst heq
          cases hfn : fn.bind address with
          | none => simp
          | some compiled => exact absurd hfn (hnone i compiled hi)
        · simp [heq]

theorem connectMethods_frame {address : LLVMFunction → Option F}
    (methods : List (FuncDecl × Option LLVMFunction)) (d : ClassObject F) :
    (connectMethods address methods d).parentClass = d.parentClass ∧
      (connectMethods address methods d).compiledConstructor = d.compiledConstructor := by
  induction methods generalizing d with
  | nil => exact ⟨rfl, rfl⟩
  | cons m methods ih =>
      obtain ⟨decl, fn⟩ := m
      rw [connectMethods]
      split
      · exact ih _
      · exact ih d

end Compiled

/-! ### Connected classes -/

/-- **The registry of classes with different names, whose parents are declared and
make no cycle**, after the compiled code has been connected. -/
structure Connected (cg : Cg) (address : LLVMFunction → Option F) (registry : Registry F) :
    Prop where
  distinct : (cg.classes.map CgClass.name).Nodup
  acyclic : cg.NoSelfAncestor
  resolvable : ∀ c ∈ cg.classes, ∀ name, c.parentName = some name → (cg.findClass name).isSome
  connected : connectAllClasses (some address) cg.classes = some registry

/-- A definition of the registry is that of a class. -/
structure Defines (cg : Cg) (address : LLVMFunction → Option F) (registry : Registry F)
    (c : CgClass) (d : ClassObject F) : Prop where
  mem_classes : c ∈ cg.classes
  mem_registry : d ∈ registry
  describes : Describes c d
  parentClass : d.parentClass = c.parentName
  compiledMethod : ∀ name i, d.findMethodIndex name = some i →
    d.compiledMethod i = implementation c address name
  compiledConstructor : d.compiledConstructor = constructorImplementation c address

section Connected

variable {cg : Cg} {address : LLVMFunction → Option F} {registry connected : Registry F}
  {c : CgClass} {d : ClassObject F}

/-- A class that has been connected has its constructor and its methods. -/
theorem eq_connectMethods
    (h : connectClassToRuntime (some address) c (newDefinition c) = some d) :
    d = connectMethods address (c.methods.zip c.methodFunctions)
      { newDefinition c with compiledConstructor := constructorImplementation c address } := by
  unfold connectClassToRuntime at h
  split at h
  · rename_i hnone
    cases hnone
  · rename_i hsome
    cases hsome
    split at h
    · rename_i hconstructor hfunction
      obtain ⟨ctor, hctor, rfl⟩ := Option.map_eq_some_iff.mp h
      simp [constructorImplementation, hconstructor, hfunction, hctor]
    · rename_i hmissing
      have hnone : constructorImplementation c address = none := by
        unfold constructorImplementation
        cases hconstructor : c.constructor with
        | none => rfl
        | some decl =>
            cases hfunction : c.constructorFunction with
            | none => rfl
            | some fn => exact absurd hfunction (hmissing decl fn hconstructor)
      rw [hnone]
      exact (Option.some.inj h).symm

/-- The definitions that have been connected have the names of the classes. -/
theorem connected_classNames
    (h : List.Forall₂ (fun c d => connectClassToRuntime (some address) c (newDefinition c) = some d)
      cg.classes connected) :
    connected.map ClassObject.className = cg.classes.map CgClass.name := by
  have hnames : List.Forall₂ Eq (connected.map ClassObject.className)
      (cg.classes.map CgClass.name) := by
    rw [List.forall₂_map_left_iff, List.forall₂_map_right_iff]
    exact List.Forall₂.flip
      (h.imp fun c d hd => ((describes_newDefinition c).connected hd).className)
  rwa [List.forall₂_eq_eq_eq] at hnames

/-- A definition is found under its name. -/
theorem findDefinition_of_mem (hnodup : (registry.map ClassObject.className).Nodup)
    (hd : d ∈ registry) : findDefinition registry d.className = some d := by
  cases hfind : findDefinition registry d.className with
  | none => simpa using List.find?_eq_none.mp hfind d hd
  | some e =>
      have he := List.mem_of_find?_eq_some hfind
      rw [List.inj_on_of_nodup_map hnodup he hd (findDefinition_className hfind)]

/-- A pointer to a parent that is declared is resolved. -/
theorem resolveParent_parentClass (hnone : d.parentClass = none)
    (hresolvable : ∀ name, d.parentName = some name → (findDefinition registry name).isSome) :
    (resolveParent registry d).parentClass = d.parentName := by
  unfold resolveParent
  rw [hnone]
  dsimp only
  cases hparent : d.parentName with
  | none => rfl
  | some name =>
      obtain ⟨e, he⟩ := Option.isSome_iff_exists.mp (hresolvable name hparent)
      rw [Option.bind_some, he, Option.map_some, findDefinition_className he]

theorem resolveParent_findMethodIndex (name : Ident) :
    (resolveParent registry d).findMethodIndex name = d.findMethodIndex name := by
  unfold resolveParent
  split <;> rfl

theorem resolveParent_compiledMethod (i : ℕ) :
    (resolveParent registry d).compiledMethod i = d.compiledMethod i := by
  unfold resolveParent
  split <;> rfl

/-- Nothing is compiled in a new definition. -/
theorem newDefinition_compiledMethod (c : CgClass) (i : ℕ) :
    (newDefinition c : ClassObject F).compiledMethod i = none := by
  have hempty : (newDefinition c : ClassObject F).compiledMethods =
      (c.methods.map ASTFuncDecl.name).map fun _ => none := rfl
  rw [ClassObject.compiledMethod, hempty, List.getElem?_map]
  cases (c.methods.map ASTFuncDecl.name)[i]? <;> rfl

/-- A connected class has compiled the last method of each name. -/
theorem compiledMethod_connected {name : Ident} {i : ℕ}
    (h : connectClassToRuntime (some address) c (newDefinition c) = some d)
    (hi : d.findMethodIndex name = some i) :
    d.compiledMethod i = implementation c address name := by
  have hnames := ((describes_newDefinition c).connected h).methodNames
  have hi' : ClassObject.findMethodIndex
      { (newDefinition c : ClassObject F) with
        compiledConstructor := constructorImplementation c address } name = some i := by
    rw [ClassObject.findMethodIndex, hnames] at hi
    exact hi
  rw [eq_connectMethods h, compiledMethod_connect _ hi' (List.length_map _)]
  have hempty : ClassObject.compiledMethod
      { (newDefinition c : ClassObject F) with
        compiledConstructor := constructorImplementation c address } i = none :=
    newDefinition_compiledMethod c i
  rw [hempty, Option.or_none, implementation]

/-- **Every class has its definition in the registry.** -/
theorem Connected.exists_defines (h : Connected cg address registry) (hc : c ∈ cg.classes) :
    ∃ d, findDefinition registry c.name = some d ∧ Defines cg address registry c d := by
  obtain ⟨connected, hforall, rfl⟩ := connectAllClasses_eq_some h.distinct h.connected
  have hnames := connected_classNames hforall
  have hfound : ∀ c' ∈ cg.classes, ∃ d', d' ∈ connected ∧
      connectClassToRuntime (some address) c' (newDefinition c') = some d' := by
    intro c' hc'
    obtain ⟨i, hi, rfl⟩ := List.mem_iff_getElem.mp hc'
    have hlt : i < connected.length := hforall.length_eq ▸ hi
    exact ⟨connected[i], List.getElem_mem hlt, hforall.get hi hlt⟩
  obtain ⟨d, hd, hconnect⟩ := hfound c hc
  have hdescribes := (describes_newDefinition c).connected hconnect
  have hresolvable : ∀ name, d.parentName = some name →
      (findDefinition connected name).isSome := by
    intro name hname
    rw [hdescribes.parentName] at hname
    obtain ⟨e, he⟩ := Option.isSome_iff_exists.mp (h.resolvable c hc name hname)
    obtain ⟨d', hd', hconnect'⟩ := hfound e (List.mem_of_find?_eq_some he)
    have hename : e.name = name := by simpa using List.find?_some he
    have hclassName := ((describes_newDefinition e).connected hconnect').className
    refine List.find?_isSome.mpr ⟨d', hd', beq_iff_eq.mpr (hclassName.trans hename)⟩
  obtain ⟨hnone, hconstructor⟩ : d.parentClass = none ∧
      d.compiledConstructor = constructorImplementation c address := by
    rw [eq_connectMethods hconnect]
    exact connectMethods_frame _ _
  have hresolved := hdescribes.resolveParent connected
  have hmem : resolveParent connected d ∈ resolveInheritance connected := List.mem_map_of_mem hd
  refine ⟨resolveParent connected d, ?_, hc, hmem, hresolved, ?_, fun name i hi => ?_, ?_⟩
  · rw [← hresolved.className]
    refine findDefinition_of_mem ?_ hmem
    have hsame : (resolveInheritance connected).map ClassObject.className =
        connected.map ClassObject.className := by
      rw [resolveInheritance, List.map_map]
      refine List.map_congr_left fun e _ => ?_
      unfold Function.comp resolveParent
      split <;> rfl
    rw [hsame, hnames]
    exact h.distinct
  · rw [resolveParent_parentClass hnone hresolvable, hdescribes.parentName]
  · rw [resolveParent_findMethodIndex] at hi
    rw [resolveParent_compiledMethod]
    exact compiledMethod_connected hconnect hi
  · rw [← hconstructor]
    unfold resolveParent
    split <;> rfl

/-- **The parent of a definition is the definition of the parent.** -/
theorem Connected.parent_rel (h : Connected cg address registry)
    (hdefines : Defines cg address registry c d) :
    Option.Rel (Defines cg address registry) (cg.parentClass c) (parent registry d) := by
  unfold Cg.parentClass parent
  rw [hdefines.parentClass]
  cases hparent : c.parentName with
  | none => exact .none
  | some name =>
      obtain ⟨e, he⟩ := Option.isSome_iff_exists.mp
        (h.resolvable c hdefines.mem_classes name hparent)
      have hename : e.name = name := by simpa using List.find?_some he
      obtain ⟨d', hfind, hdefines'⟩ := h.exists_defines (List.mem_of_find?_eq_some he)
      rw [hename] at hfind
      rw [Option.bind_some, Option.bind_some, he, hfind]
      exact .some hdefines'

/-! ### What is found under a name -/

/-- The method that a class has under a name: the class, and what is compiled for
it. -/
def foundMethod (name : Ident) (d : ClassObject F) : Option (Ident × Option F) :=
  (d.findMethodIndex name).map fun index => (d.className, d.compiledMethod index)

/-- A definition has the methods that its class declares. -/
theorem Defines.foundMethod_eq (hdefines : Defines cg address registry c d) (name : Ident) :
    foundMethod name d =
      if c.declaresMethod name then some (c.name, implementation c address name) else none := by
  unfold foundMethod
  cases hfind : d.findMethodIndex name with
  | none =>
      rw [ClassObject.findMethodIndex, hdefines.describes.methodNames,
        List.findIdx?_eq_none_iff] at hfind
      have hnone : c.declaresMethod name = false :=
        List.any_eq_false.mpr fun m hm => by simpa using hfind m.name (List.mem_map_of_mem hm)
      simp [hnone]
  | some i =>
      have hname := methodNames_of_findMethodIndex hfind
      rw [hdefines.describes.methodNames] at hname
      obtain ⟨m, hm, hmname⟩ := List.mem_map.mp (List.mem_of_getElem? hname)
      have hdeclares : c.declaresMethod name = true :=
        List.any_eq_true.mpr ⟨m, hm, beq_iff_eq.mpr hmname⟩
      rw [if_pos hdeclares, Option.map_some, hdefines.compiledMethod name i hfind,
        hdefines.describes.className]

/-- What a search for a method finds has that method. -/
theorem exists_found {n : ℕ} {name className : Ident} {fn : Option F}
    (h : Walk.search (parent registry) (foundMethod name) n d = some (some (className, fn))) :
    ∃ definingClass index,
      findMethodDefiningClass registry name n d = some (some (definingClass, index)) ∧
        definingClass.findMethodIndex name = some index ∧
        definingClass.className = className ∧ definingClass.compiledMethod index = fn := by
  have hmap : foundMethod name = fun d : ClassObject F =>
      ((d.findMethodIndex name).map fun index => (d, index)).map fun found =>
        (found.1.className, found.1.compiledMethod found.2) := by
    funext d
    rw [Option.map_map]
    rfl
  rw [hmap, Walk.search_map] at h
  obtain ⟨answer, hanswer, hsome⟩ := Option.map_eq_some_iff.mp h
  obtain ⟨found, rfl, hfn⟩ := Option.map_eq_some_iff.mp hsome
  obtain ⟨hclass, hcompiled⟩ := Prod.mk.inj hfn
  obtain ⟨d', hd'⟩ := Walk.exists_answer_of_search hanswer
  obtain ⟨index, hindex, rfl⟩ := Option.map_eq_some_iff.mp hd'
  exact ⟨d', index, hanswer, hindex, hclass, hcompiled⟩

/-- **A search from the definition of a class finds what the most derived class
that declares the method has compiled.** -/
theorem Connected.search_eq (h : Connected cg address registry)
    (hdefines : Defines cg address registry c d) {name : Ident} {t : CgClass}
    (ht : cg.Implements name c t) {n : ℕ} (hn : cg.classes.length ≤ n) :
    Walk.search (parent registry) (foundMethod name) n d =
      some (some (t.name, implementation t address name)) := by
  rw [← Walk.search_rel (fun _ _ => h.parent_rel)
    (fun _ _ hdefines' => (hdefines'.foundMethod_eq name).symm) n hdefines]
  refine (Walk.search_eq_some_iff (fun _ _ _ hparent => Cg.parentClass_mem hparent)
    hdefines.mem_classes hn).mpr ?_
  exact Walk.finds_map_answer.mpr ⟨t, ht, rfl⟩

/-! ### The instance of a class -/

/-- What an instance has of the definition it is made from. -/
structure MadeFrom (d made : ClassObject F) (names : List Ident) : Prop where
  className : made.className = d.className
  fieldNames : made.fieldNames = names
  fieldValues : made.fieldValues = names.map fun _ => .nil
  parentClass : made.parentClass = d.parentClass
  methods : ∀ name, foundMethod name made = foundMethod name d

/-- A search from an instance finds what one from its definition does, whatever the
fields of the instance hold by then. -/
theorem MadeFrom.search_eq {made object : ClassObject F} {names : List Ident}
    {values : List BreadValue} (h : MadeFrom d made names)
    (hobject : object = { made with fieldValues := values }) {n : ℕ} {name : Ident} :
    Walk.search (parent registry) (foundMethod name) n object =
      Walk.search (parent registry) (foundMethod name) n d := by
  have hfound : foundMethod name object = foundMethod name made := by rw [hobject]; rfl
  have hparent : parent registry object = parent registry d := by
    rw [hobject, parent, parent]
    exact congrArg (fun p => Option.bind p (findDefinition registry)) h.parentClass
  exact Walk.search_congr (hfound.trans (h.methods name)) hparent n

/-- An instance has the methods of its definition. -/
theorem Defines.foundMethod_instanceOf (hdefines : Defines cg address registry c d)
    (names : List Ident) (name : Ident) :
    foundMethod name (instanceOf d c.name c.parentName names (c.methods.map ASTFuncDecl.name)) =
      foundMethod name d := by
  have hfind : (instanceOf d c.name c.parentName names
      (c.methods.map ASTFuncDecl.name)).findMethodIndex name = d.findMethodIndex name := by
    rw [ClassObject.findMethodIndex, ClassObject.findMethodIndex, hdefines.describes.methodNames]
    rfl
  rw [foundMethod, foundMethod, hfind]
  cases hindex : d.findMethodIndex name with
  | none => rfl
  | some i =>
      have hname := methodNames_of_findMethodIndex hindex
      rw [hdefines.describes.methodNames] at hname
      have hcompiled : (instanceOf d c.name c.parentName names
          (c.methods.map ASTFuncDecl.name)).compiledMethod i = d.compiledMethod i := by
        rw [ClassObject.compiledMethod, instanceOf, List.getElem?_map, hname, Option.map_some,
          Option.join_some, hindex, Option.bind_some]
      rw [Option.map_some, Option.map_some, hcompiled, hdefines.describes.className]
      rfl

/-- **An instance has the fields of the whole chain, those of the root first**, and
the methods of its class. -/
theorem Connected.exists_createInstance (h : Connected cg address registry)
    (hc : c ∈ cg.classes) {k n : ℕ} {lineage : List CgClass}
    (hlineage : Walk.chain cg.parentClass k c = some lineage) (hn : k ≤ n)
    (fieldNames : List Ident) :
    ∃ d made, Defines cg address registry c d ∧
      createInstance registry n c.name c.parentName fieldNames
        (c.methods.map ASTFuncDecl.name) = some made ∧
      MadeFrom d made (lineage.reverse.flatMap fun a => a.fields.map Prod.fst) := by
  obtain ⟨d, hfind, hdefines⟩ := h.exists_defines hc
  have hfields : collectAllFields registry n d =
      some (lineage.reverse.flatMap fun a => a.fields.map Prod.fst) := by
    rw [collectAllFields, ← Walk.collect_rel (fun _ _ => h.parent_rel)
      (fun _ _ hdefines' => hdefines'.describes.fieldNames.symm) n hdefines,
      Walk.collect_eq, Walk.chain_mono hlineage hn, Option.map_some]
  refine ⟨d, instanceOf d c.name c.parentName
    (lineage.reverse.flatMap fun a => a.fields.map Prod.fst) (c.methods.map ASTFuncDecl.name),
    hdefines, ?_, hdefines.describes.className.symm, rfl, rfl, rfl,
    hdefines.foundMethod_instanceOf _⟩
  simp only [createInstance, hfind, hfields, Option.map_some]

/-- A call on an instance executes the method that the search finds. -/
theorem methodCallOp_eq_callCompiled {code : CompiledCode F} {n : ℕ} {name className : Ident}
    {fn : F}
    {s : CallState F} {target : Ref} {argc : ℤ} {args : ℕ → BreadValue}
    (hbuiltin : name ∉ interceptedMethods) (hinit : name ≠ initName)
    (hfound : Walk.search (parent registry) (foundMethod name) n (s.objects target) =
      some (some (className, some fn))) :
    methodCallOp code registry n target name argc args s =
      some (callCompiled code fn target argc args s) := by
  obtain ⟨definingClass, index, hsearch, hindex, -, hfn⟩ := exists_found hfound
  have hname := methodNames_of_findMethodIndex hindex
  have hlt := (List.getElem?_eq_some_iff.mp hname).1
  rw [methodCallOp, if_neg hbuiltin, if_neg hinit, hsearch, Option.map_some]
  congr 1
  refine executeMethod_of_compiled (by omega) ?_ ?_
  · rw [Int.toNat_natCast, hname]
    exact fun heq => hinit (Option.some.inj heq)
  · rw [Int.toNat_natCast, hfn]

/-- A built-in method runs nothing. -/
theorem not_runsOnce_of_intercepted {code : CompiledCode F} {n : ℕ} {name : Ident} {fn : F}
    {s : CallState F} {target : Ref} {argc : ℤ} {args : ℕ → BreadValue}
    {after : Option BreadValue × CallState F} (hbuiltin : name ∈ interceptedMethods)
    (h : methodCallOp code registry n target name argc args s = some after) :
    ¬ RunsOnce code fn target (argList argc args) s after := by
  rw [methodCallOp, if_pos hbuiltin] at h
  cases h
  intro hruns
  cases hruns.1

/-- **An instance has the fields of its whole chain and runs the method of the most
derived class on it**, exactly when the method is not built in and gets up to three
arguments. -/
theorem instance_respects_inheritance (code : CompiledCode F)
    (h : Connected cg address registry) (hc : c ∈ cg.classes) (fieldNames : List Ident) :
    ∃ lineage k, Walk.chain cg.parentClass k c = some lineage ∧ ∃ N, ∀ n, N ≤ n → ∃ made,
      createInstance registry n c.name c.parentName fieldNames
          (c.methods.map ASTFuncDecl.name) = some made ∧
        made.fieldNames = lineage.reverse.flatMap (fun a => a.fields.map Prod.fst) ∧
        made.fieldValues = made.fieldNames.map (fun _ => .nil) ∧
        ∀ name, name ≠ initName → (∃ a ∈ lineage, a.declaresMethod name) →
          ∃ t, cg.Implements name c t ∧ ∀ fn, implementation t address name = some fn →
            ∀ (s : CallState F) (target : Ref) (argc : ℤ) (args : ℕ → BreadValue) values,
              s.objects target = { made with fieldValues := values } →
                ((∃ after, methodCallOp code registry n target name argc args s = some after ∧
                    RunsOnce code fn target (argList argc args) s after) ↔
                  name ∉ interceptedMethods ∧ 0 ≤ argc ∧ argc ≤ 3) := by
  obtain ⟨k, lineage, hlineage⟩ := h.acyclic.exists_chain hc
  refine ⟨lineage, k, hlineage, max k cg.classes.length, fun n hn => ?_⟩
  obtain ⟨d, made, hdefines, hmade, hfrom⟩ :=
    h.exists_createInstance hc hlineage (le_of_max_le_left hn) fieldNames
  refine ⟨made, hmade, hfrom.fieldNames, by rw [hfrom.fieldValues, hfrom.fieldNames], ?_⟩
  intro name hinit hdeclared
  obtain ⟨a, ha, hdeclares⟩ := hdeclared
  obtain ⟨t, ht⟩ := Walk.exists_finds_of_chain (p := fun c =>
    if c.declaresMethod name then some c else none) hlineage ⟨a, ha, by simp [hdeclares]⟩
  refine ⟨t, ht, fun fn hfn s target argc args values htarget => ?_⟩
  have hsearch : Walk.search (parent registry) (foundMethod name) n (s.objects target) =
      some (some (t.name, some fn)) := by
    rw [hfrom.search_eq htarget, h.search_eq hdefines ht (le_of_max_le_right hn), hfn]
  constructor
  · rintro ⟨after, hafter, hruns⟩
    by_cases hbuiltin : name ∈ interceptedMethods
    · exact absurd hruns (not_runsOnce_of_intercepted hbuiltin hafter)
    · rw [methodCallOp_eq_callCompiled hbuiltin hinit hsearch] at hafter
      rw [← Option.some.inj hafter, callCompiled_runsOnce_iff] at hruns
      exact ⟨hbuiltin, hruns⟩
  · rintro ⟨hbuiltin, hargc⟩
    exact ⟨_, methodCallOp_eq_callCompiled hbuiltin hinit hsearch,
      (callCompiled_runsOnce_iff code s).mpr hargc⟩

end Connected

/-! ### An inherited method, and one that is built in -/

/-- A method without parameters. -/
def plainMethod (name : String) : FuncDecl :=
  ⟨name.toList, [], .typeNil, some .nil, some []⟩

/-- `class Shape { id: Int; def draw() {}; def toString() {} }`. -/
def shapeClass : CgClass where
  name := "Shape".toList
  parentName := none
  fields := [("id".toList, .int)]
  methods := [plainMethod "draw", plainMethod "toString"]
  constructor := none
  methodFunctions := [some ⟨"Shape_draw".toList, 0, 2⟩, some ⟨"Shape_toString".toList, 1, 2⟩]
  constructorFunction := none

/-- `class Circle extends Shape { radius: Int }`. -/
def circleClass : CgClass where
  name := "Circle".toList
  parentName := some "Shape".toList
  fields := [("radius".toList, .int)]
  methods := []
  constructor := none
  methodFunctions := []
  constructorFunction := none

/-- The generator after both. -/
def shapes : Cg := { Cg.init with classes := [circleClass, shapeClass] }

/-- The address of a function is its number. -/
def byNumber (fn : LLVMFunction) : Option ℕ := some fn.number

/-- The registry of both. -/
def shapeRegistry : Registry ℕ :=
  (connectAllClasses (some byNumber) shapes.classes).getD []

theorem shapes_noSelfAncestor : shapes.NoSelfAncestor := by
  have hedge : ∀ c ∈ shapes.classes, ∀ parent, shapes.ParentOf c parent →
      c = circleClass ∧ parent = shapeClass := by
    intro c hc parent hparent
    rcases List.mem_cons.mp hc with rfl | hc
    · exact ⟨rfl, (Option.some.inj hparent).symm⟩
    · rw [List.mem_singleton.mp hc] at hparent
      cases hparent
  intro c hcycle
  have hc := mem_of_ancestor hcycle
  obtain ⟨parent, hfirst, hrest⟩ := Relation.TransGen.head'_iff.mp hcycle
  obtain ⟨rfl, rfl⟩ := hedge c hc parent hfirst
  -- the only edge goes to the class that has no parent
  rcases Relation.ReflTransGen.cases_head hrest with heq | ⟨next, hnext, -⟩
  · exact absurd (congrArg CgClass.name heq) (by decide)
  · cases hnext

theorem shapes_connected : Connected shapes byNumber shapeRegistry where
  distinct := by decide
  acyclic := shapes_noSelfAncestor
  resolvable := by
    intro c hc name hname
    rcases List.mem_cons.mp hc with rfl | hc
    · cases hname
      rfl
    · rw [List.mem_singleton.mp hc] at hname
      cases hname
  connected := rfl

/-- A circle has the field of a shape before its own, and draws itself as a shape
does. -/
theorem circle_draws : ∃ n made, createInstance shapeRegistry n circleClass.name
      circleClass.parentName [] (circleClass.methods.map ASTFuncDecl.name) = some made ∧
    made.fieldNames = ["id".toList, "radius".toList] ∧
    ∃ after, methodCallOp lastArgument shapeRegistry n 0 "draw".toList 0 counting
        ⟨fun _ => made, []⟩ = some after ∧
      RunsOnce lastArgument 0 0 [] ⟨fun _ => made, []⟩ after := by
  obtain ⟨lineage, k, hlineage, N, hinstance⟩ :=
    instance_respects_inheritance lastArgument shapes_connected List.mem_cons_self []
  have hchain : Walk.chain shapes.parentClass 2 circleClass = some [circleClass, shapeClass] := rfl
  cases Walk.chain_unique hlineage hchain
  obtain ⟨made, hmade, hfields, -, hmethods⟩ := hinstance N (Nat.le_refl N)
  obtain ⟨t, ht, hruns⟩ := hmethods "draw".toList (by decide)
    ⟨shapeClass, List.mem_cons_of_mem _ List.mem_cons_self, by decide⟩
  have hshape : shapes.Implements "draw".toList circleClass shapeClass :=
    .step rfl rfl (.here rfl)
  cases ht.unique hshape
  exact ⟨N, made, hmade, hfields,
    (hruns 0 (by decide) ⟨fun _ => made, []⟩ 0 0 counting made.fieldValues rfl).mpr ⟨by decide, by decide⟩⟩

/-- The method `toString` that a circle inherits is compiled, and a call of it runs
nothing. -/
theorem circle_toString_runs_nothing : ∃ made, createInstance shapeRegistry 2 circleClass.name
      circleClass.parentName [] (circleClass.methods.map ASTFuncDecl.name) = some made ∧
    shapes.Implements "toString".toList circleClass shapeClass ∧
    implementation shapeClass byNumber "toString".toList = some 1 ∧
    ∀ n, ¬ ∃ after, methodCallOp lastArgument shapeRegistry n 0 "toString".toList 0 counting
        ⟨fun _ => made, []⟩ = some after ∧
      RunsOnce lastArgument 1 0 [] ⟨fun _ => made, []⟩ after := by
  refine ⟨_, rfl, .step rfl rfl (.here rfl), by decide, fun n => ?_⟩
  rintro ⟨after, hafter, hruns⟩
  cases hafter
  cases hruns.1

end ClassRegistry

end BreadLang
