import BreadLang.Codegen.Context
import BreadLang.Library.Walk

/-!
# Classes at run time

The registry of class definitions, as `cg_connect_all_classes_to_runtime` builds
it from the classes of the generator, the instances that a constructor call
makes, and `bread_method_call_op` on an instance.

A pointer `parent_class` is the name of the definition it points to, and a
function pointer is the method it has been compiled from.
-/

namespace BreadLang

/-- `BreadCompiledMethod`: the class, the index of the method in it, and the LLVM
function. -/
structure BreadCompiledMethod where
  className : Ident
  index : ℕ
  fn : LLVMFunction

/-- `BreadClass`, a definition or an instance, without its fields.
`compiledMethods` has an entry for each method. -/
structure BreadClass where
  className : Ident
  parentClass : Option Ident
  methodNames : List Ident
  compiledMethods : List (Option BreadCompiledMethod)

namespace BreadClass

/-- `bread_class_new_with_methods`. -/
def newWithMethods (className : Ident) (methodNames : List Ident) : BreadClass where
  className := className
  parentClass := none
  methodNames := methodNames
  compiledMethods := methodNames.map fun _ => none

/-- `bread_class_find_method_index`. -/
def findMethodIndex (c : BreadClass) (name : Ident) : Option ℕ :=
  c.methodNames.findIdx? fun m => m == name

/-- `bread_class_set_compiled_method`. -/
def setCompiledMethod (c : BreadClass) (index : ℕ) (method : BreadCompiledMethod) : BreadClass :=
  { c with compiledMethods := c.compiledMethods.set index (some method) }

/-- The compiled method at an index. -/
def compiledMethod (c : BreadClass) (index : ℕ) : Option BreadCompiledMethod :=
  c.compiledMethods[index]?.join

end BreadClass

/-! ### The registry -/

/-- `bread_class_find_definition`. -/
def findDefinition (registry : List BreadClass) (name : Ident) : Option BreadClass :=
  registry.find? fun c => c.className == name

/-- The loop of `cg_connect_class_to_runtime` over the methods of a class, from an
index on. -/
def connectMethods (className : Ident) :
    ℕ → List (FuncDecl × Option LLVMFunction) → BreadClass → BreadClass
  | _, [], runtime => runtime
  | index, (_, none) :: methods, runtime => connectMethods className (index + 1) methods runtime
  | index, (decl, some fn) :: methods, runtime =>
      connectMethods className (index + 1) methods
        (match runtime.findMethodIndex decl.name with
        | some i => runtime.setCompiledMethod i ⟨className, index, fn⟩
        | none => runtime)

/-- `cg_connect_class_to_runtime`. -/
def connectClassToRuntime (c : CgClass) (runtime : BreadClass) : BreadClass :=
  connectMethods c.name 0 (c.methods.zip c.methodFunctions) runtime

/-- The loop body of `cg_connect_all_classes_to_runtime`. -/
def connectClass (registry : List BreadClass) (c : CgClass) : List BreadClass :=
  match findDefinition registry c.name with
  | some _ =>
      registry.map fun runtime =>
        if runtime.className == c.name then connectClassToRuntime c runtime else runtime
  | none =>
      let runtime := BreadClass.newWithMethods c.name (c.methods.map ASTFuncDecl.name)
      registry ++ [connectClassToRuntime c { runtime with parentClass := c.parentName }]

/-- `cg_connect_all_classes_to_runtime`.  `bread_class_resolve_inheritance` sets
the pointers to the parents, which may be missing. -/
def connectAllClasses (classes : List CgClass) : List BreadClass :=
  classes.foldl connectClass []

/-- The definition that `parent_class` points to. -/
def BreadClass.parent (registry : List BreadClass) (c : BreadClass) : Option BreadClass :=
  c.parentClass.bind (findDefinition registry)

/-- `bread_class_create_instance`. -/
def createInstance (registry : List BreadClass) (name : Ident) (methodNames : List Ident) :
    BreadClass :=
  match findDefinition registry name with
  | none => .newWithMethods name methodNames
  | some definition => {
      className := name
      parentClass := definition.parentClass
      methodNames := methodNames
      compiledMethods := methodNames.map fun m =>
        (definition.findMethodIndex m).bind definition.compiledMethod }

/-! ### Method calls -/

/-- What `bread_method_call_op` does on an instance. -/
inductive MethodCallOutcome where
  /-- It runs a compiled method. -/
  | runs (method : BreadCompiledMethod)
  /-- It runs the constructor. -/
  | constructs
  /-- It reports success and runs nothing: there are more than three arguments. -/
  | skips
  /-- It reports a runtime error. -/
  | fails
  /-- It never returns. -/
  | diverges

/-- `bread_class_call_compiled_method`. -/
def callCompiledMethod (method : BreadCompiledMethod) (argCount : ℕ) : MethodCallOutcome :=
  if argCount ≤ 3 then .runs method else .skips

/-- `bread_class_execute_method_direct`. -/
def executeMethodDirect (c : BreadClass) (index argCount : ℕ) : MethodCallOutcome :=
  if c.methodNames[index]? == some "init".toList then .constructs
  else
    match c.compiledMethod index with
    | some method => callCompiledMethod method argCount
    | none => .fails

/-- `bread_class_find_method_defining_class`: the class and the index of the
method.  The recursion along the parents ends after as many steps as there are
definitions, or never. -/
def findMethodDefiningClass (registry : List BreadClass) (c : BreadClass) (name : Ident) :
    Option (Option (BreadClass × ℕ)) :=
  Walk.search (BreadClass.parent registry)
    (fun c => (c.findMethodIndex name).map fun index => (c, index)) (registry.length + 1) c

/-- `bread_method_call_op` on an instance of a class.  The built-in methods have
none to work on: `toString` does not convert an instance, and `append` wants an
array. -/
def methodCallOp (registry : List BreadClass) (target : BreadClass) (name : Ident)
    (argCount : ℕ) : MethodCallOutcome :=
  if name == "toString".toList || name == "append".toList then .fails
  else if name == "init".toList then .constructs
  else
    match findMethodDefiningClass registry target name with
    | none => .diverges
    | some none => .fails
    | some (some (c, index)) => executeMethodDirect c index argCount

/-! ### What the registry holds -/

/-- The definition of a class in the registry. -/
def CgClass.definition (c : CgClass) : BreadClass :=
  let runtime := BreadClass.newWithMethods c.name (c.methods.map ASTFuncDecl.name)
  connectClassToRuntime c { runtime with parentClass := c.parentName }

section Definitions

variable (className : Ident)

theorem connectMethods_frame (index : ℕ) (methods : List (FuncDecl × Option LLVMFunction))
    (runtime : BreadClass) :
    (connectMethods className index methods runtime).className = runtime.className ∧
      (connectMethods className index methods runtime).parentClass = runtime.parentClass ∧
      (connectMethods className index methods runtime).methodNames = runtime.methodNames ∧
      (connectMethods className index methods runtime).compiledMethods.length =
        runtime.compiledMethods.length := by
  induction methods generalizing index runtime with
  | nil => exact ⟨rfl, rfl, rfl, rfl⟩
  | cons m methods ih =>
      obtain ⟨decl, fn⟩ := m
      cases fn with
      | none => exact ih (index + 1) runtime
      | some fn =>
          unfold connectMethods
          cases runtime.findMethodIndex decl.name with
          | none => exact ih (index + 1) runtime
          | some i =>
              obtain ⟨h₁, h₂, h₃, h₄⟩ := ih (index + 1)
                (runtime.setCompiledMethod i ⟨className, index, fn⟩)
              exact ⟨h₁, h₂, h₃, h₄.trans List.length_set⟩

/-- The last compiled method of that name. -/
def lastCompiled (name : Ident) :
    ℕ → List (FuncDecl × Option LLVMFunction) → Option BreadCompiledMethod
  | _, [] => none
  | index, (decl, fn) :: methods =>
      (lastCompiled name (index + 1) methods).or
        (if decl.name = name then fn.map fun fn => ⟨className, index, fn⟩ else none)

theorem BreadClass.getElem?_of_findMethodIndex {runtime : BreadClass} {name : Ident} {i : ℕ}
    (h : runtime.findMethodIndex name = some i) : runtime.methodNames[i]? = some name := by
  obtain ⟨hlt, heq, -⟩ := List.findIdx?_eq_some_iff_getElem.mp h
  rw [List.getElem?_eq_getElem hlt, eq_of_beq heq]

/-- What setting a method does to the method of that name. -/
theorem compiledMethod_setCompiledMethod {runtime : BreadClass} {name name' : Ident} {i j : ℕ}
    (hi : runtime.findMethodIndex name = some i) (hj : runtime.findMethodIndex name' = some j)
    (hlength : runtime.compiledMethods.length = runtime.methodNames.length)
    (method : BreadCompiledMethod) :
    (runtime.setCompiledMethod j method).compiledMethod i =
      if name' = name then some method else runtime.compiledMethod i := by
  have hname := BreadClass.getElem?_of_findMethodIndex hi
  have hname' := BreadClass.getElem?_of_findMethodIndex hj
  unfold BreadClass.setCompiledMethod BreadClass.compiledMethod
  by_cases heq : name' = name
  · subst heq
    have hij : i = j := Option.some.inj (hi.symm.trans hj)
    have hlt : j < runtime.compiledMethods.length := by
      rw [hlength]
      exact (List.getElem?_eq_some_iff.mp hname').1
    simp [hij, hlt]
  · have hij : j ≠ i := by
      rintro rfl
      exact heq (Option.some.inj (hname'.symm.trans hname))
    rw [List.getElem?_set_ne hij]
    simp [heq]

/-- A later method of the same name replaces an earlier one. -/
theorem compiledMethod_connectMethods {name : Ident} {i : ℕ} (index : ℕ)
    (methods : List (FuncDecl × Option LLVMFunction)) {runtime : BreadClass}
    (hfind : runtime.findMethodIndex name = some i)
    (hlength : runtime.compiledMethods.length = runtime.methodNames.length) :
    (connectMethods className index methods runtime).compiledMethod i =
      (lastCompiled className name index methods).or (runtime.compiledMethod i) := by
  induction methods generalizing index runtime with
  | nil => rfl
  | cons m methods ih =>
      obtain ⟨decl, fn⟩ := m
      cases fn with
      | none =>
          unfold connectMethods lastCompiled
          rw [ih (index + 1) hfind hlength]
          simp
      | some fn =>
          unfold connectMethods lastCompiled
          rw [Option.or_assoc]
          cases hdecl : runtime.findMethodIndex decl.name with
          | none =>
              -- the class has no method of that name, so it is another one
              have hne : decl.name ≠ name := by
                rintro rfl
                rw [hfind] at hdecl
                cases hdecl
              simpa [hne] using ih (index + 1) hfind hlength
          | some j =>
              have hset := compiledMethod_setCompiledMethod hfind hdecl hlength
                ⟨className, index, fn⟩
              have hfind' : (runtime.setCompiledMethod j ⟨className, index, fn⟩).findMethodIndex
                  name = some i := hfind
              rw [ih (index + 1) hfind' (List.length_set.trans hlength), hset]
              by_cases heq : decl.name = name <;> simp [heq]

theorem lastCompiled_isSome {name : Ident} (index : ℕ)
    {methods : List (FuncDecl × Option LLVMFunction)} {m : FuncDecl × Option LLVMFunction}
    (hm : m ∈ methods) (hname : m.1.name = name) (hfn : m.2.isSome) :
    (lastCompiled className name index methods).isSome := by
  induction methods generalizing index with
  | nil => cases hm
  | cons m' methods ih =>
      unfold lastCompiled
      rcases List.mem_cons.mp hm with rfl | hm
      · simp [hname, hfn]
      · simp [ih (index + 1) hm]

/-- Where the last method of a name is, when all of them are compiled. -/
theorem lastCompiled_eq_some {name : Ident} {index : ℕ}
    {methods : List (FuncDecl × Option LLVMFunction)} {method : BreadCompiledMethod}
    (hcompiled : ∀ m ∈ methods, m.1.name = name → m.2.isSome)
    (h : lastCompiled className name index methods = some method) :
    method.className = className ∧ ∃ j m, method.index = index + j ∧ methods[j]? = some m ∧
      m.1.name = name ∧ ∀ k m', j < k → methods[k]? = some m' → m'.1.name ≠ name := by
  induction methods generalizing index with
  | nil => cases h
  | cons m methods ih =>
      obtain ⟨decl, fn⟩ := m
      obtain ⟨hfirst, hrest⟩ := List.forall_mem_cons.mp hcompiled
      unfold lastCompiled at h
      cases hlast : lastCompiled className name (index + 1) methods with
      | some method' =>
          rw [hlast] at h
          cases h
          obtain ⟨hclass, j, m, hindex, hm, hname, hlater⟩ := ih hrest hlast
          refine ⟨hclass, j + 1, m, by omega, hm, hname, ?_⟩
          intro k m' hk hm'
          obtain ⟨k', rfl⟩ := Nat.exists_eq_succ_of_ne_zero (Nat.ne_of_gt (Nat.zero_lt_of_lt hk))
          exact hlater k' m' (Nat.lt_of_succ_lt_succ hk) hm'
      | none =>
          rw [hlast, Option.none_or] at h
          split at h
          · rename_i hname
            obtain ⟨fn', rfl, rfl⟩ := Option.map_eq_some_iff.mp h
            refine ⟨rfl, 0, _, rfl, rfl, hname, ?_⟩
            intro k m' hk hm' hm'name
            -- a later method of that name would have been found
            obtain ⟨k', rfl⟩ := Nat.exists_eq_succ_of_ne_zero (Nat.ne_of_gt hk)
            have hmem : m' ∈ methods := List.mem_of_getElem? hm'
            have hsome := lastCompiled_isSome className (index + 1) hmem hm'name
              (hrest m' hmem hm'name)
            rw [hlast] at hsome
            cases hsome
          · cases h

end Definitions

section Registry

variable {cg : Cg}

theorem definition_className (c : CgClass) : c.definition.className = c.name :=
  (connectMethods_frame c.name 0 _ _).1

theorem definition_parentClass (c : CgClass) : c.definition.parentClass = c.parentName :=
  (connectMethods_frame c.name 0 _ _).2.1

theorem definition_methodNames (c : CgClass) :
    c.definition.methodNames = c.methods.map ASTFuncDecl.name :=
  (connectMethods_frame c.name 0 _ _).2.2.1

theorem findDefinition_map (classes : List CgClass) (name : Ident) :
    findDefinition (classes.map CgClass.definition) name =
      (classes.find? fun c => c.name == name).map CgClass.definition := by
  unfold findDefinition
  rw [List.find?_map]
  congr 2
  funext c
  simp [definition_className]

/-- Classes of different names get definitions of their own. -/
theorem connectAllClasses_eq (classes : List CgClass)
    (hnodup : (classes.map CgClass.name).Nodup) :
    connectAllClasses classes = classes.map CgClass.definition := by
  have hfold : ∀ rest done : List CgClass, ((done ++ rest).map CgClass.name).Nodup →
      rest.foldl connectClass (done.map CgClass.definition) =
        (done ++ rest).map CgClass.definition := by
    intro rest
    induction rest with
    | nil =>
        intro done _
        rw [List.append_nil]
        rfl
    | cons c rest ih =>
        intro done hnodup
        have hnew : (done.find? fun d => d.name == c.name) = none := by
          refine List.find?_eq_none.mpr fun d hd hname => ?_
          rw [List.map_append, List.nodup_append] at hnodup
          exact hnodup.2.2 d.name (List.mem_map_of_mem hd) c.name
            (List.mem_map_of_mem List.mem_cons_self) (eq_of_beq hname)
        have hstep : connectClass (done.map CgClass.definition) c =
            (done ++ [c]).map CgClass.definition := by
          unfold connectClass
          rw [findDefinition_map, hnew, List.map_append]
          rfl
        rw [List.foldl_cons, hstep, ih (done ++ [c]) (by simpa using hnodup)]
        simp
  exact hfold classes [] hnodup

theorem parent_definition (c : CgClass) :
    c.definition.parent (cg.classes.map CgClass.definition) =
      (cg.parentClass c).map CgClass.definition := by
  unfold BreadClass.parent Cg.parentClass Cg.findClass
  rw [definition_parentClass]
  cases c.parentName with
  | none => rfl
  | some name => exact findDefinition_map cg.classes name

theorem findMethodIndex_definition (c : CgClass) (name : Ident) :
    c.definition.findMethodIndex name = c.methods.findIdx? fun m => m.name == name := by
  unfold BreadClass.findMethodIndex
  rw [definition_methodNames, List.findIdx?_map]
  rfl

/-- The compiled method that the definition of a class has under a name. -/
def CgClass.lastMethod (c : CgClass) (name : Ident) : Option BreadCompiledMethod :=
  lastCompiled c.name name 0 (c.methods.zip c.methodFunctions)

theorem compiledMethod_definition {c : CgClass} {name : Ident} {i : ℕ}
    (h : c.definition.findMethodIndex name = some i) :
    c.definition.compiledMethod i = c.lastMethod name := by
  have hnames : c.definition.methodNames = c.methods.map ASTFuncDecl.name :=
    definition_methodNames c
  have hfind : BreadClass.findMethodIndex { BreadClass.newWithMethods c.name
      (c.methods.map ASTFuncDecl.name) with parentClass := c.parentName } name = some i := by
    unfold BreadClass.findMethodIndex at h ⊢
    rw [hnames] at h
    exact h
  unfold CgClass.definition connectClassToRuntime
  rw [compiledMethod_connectMethods c.name 0 _ hfind (by simp [BreadClass.newWithMethods])]
  have hempty : BreadClass.compiledMethod { BreadClass.newWithMethods c.name
      (c.methods.map ASTFuncDecl.name) with parentClass := c.parentName } i = none := by
    unfold BreadClass.compiledMethod BreadClass.newWithMethods
    rw [List.getElem?_map]
    cases (c.methods.map ASTFuncDecl.name)[i]? <;> rfl
  rw [hempty, Option.or_none]
  rfl

/-- The names that `bread_method_call_op` does not look up in a class. -/
def builtinMethods : List Ident :=
  ["toString".toList, "append".toList, "init".toList]

/-- The instance that a constructor call of a class makes. -/
def CgClass.instanceIn (c : CgClass) (classes : List CgClass) : BreadClass :=
  createInstance (connectAllClasses classes) c.name (c.methods.map ASTFuncDecl.name)

/-- Whether a class declares a method of that name. -/
def CgClass.declaresMethod (c : CgClass) (name : Ident) : Bool :=
  c.methods.any fun m => m.name == name

/-- **The class that implements a method for the instances of a class**: the first
one, from that class upwards, that declares it. -/
def Cg.Implements (cg : Cg) (name : Ident) : CgClass → CgClass → Prop :=
  Walk.Finds cg.parentClass fun c => if c.declaresMethod name then some c else none

/-- What a call does once the implementing class is known. -/
def CgClass.callOutcome (c : CgClass) (name : Ident) (argCount : ℕ) : MethodCallOutcome :=
  match c.lastMethod name with
  | some method => callCompiledMethod method argCount
  | none => .fails

/-- The call of the method that a class finds in itself. -/
def executeFound (name : Ident) (argCount : ℕ) (c : BreadClass) : Option MethodCallOutcome :=
  (c.findMethodIndex name).map fun index => executeMethodDirect c index argCount

theorem methodCallOp_eq (registry : List BreadClass) (target : BreadClass) {name : Ident}
    (argCount : ℕ) (hbuiltin : name ∉ builtinMethods) :
    methodCallOp registry target name argCount =
      match Walk.search (BreadClass.parent registry) (executeFound name argCount)
        (registry.length + 1) target with
      | none => .diverges
      | some none => .fails
      | some (some outcome) => outcome := by
  simp only [builtinMethods, List.mem_cons, List.not_mem_nil, or_false, not_or] at hbuiltin
  obtain ⟨h₁, h₂, h₃⟩ := hbuiltin
  have hexecute : executeFound name argCount = fun c : BreadClass =>
      ((c.findMethodIndex name).map fun index => (c, index)).map fun found =>
        executeMethodDirect found.1 found.2 argCount := by
    funext c
    rw [Option.map_map]
    rfl
  rw [hexecute, Walk.search_map]
  unfold methodCallOp
  simp only [beq_eq_false_iff_ne.mpr h₁, beq_eq_false_iff_ne.mpr h₂, beq_eq_false_iff_ne.mpr h₃]
  show (match findMethodDefiningClass registry target name with
    | none => _
    | some none => _
    | some (some (c, index)) => _) = _
  unfold findMethodDefiningClass
  cases Walk.search (BreadClass.parent registry) _ (registry.length + 1) target with
  | none => rfl
  | some found =>
      cases found with
      | none => rfl
      | some found => rfl

theorem executeFound_definition {c : CgClass} {name : Ident} (argCount : ℕ)
    (hinit : name ≠ "init".toList) :
    executeFound name argCount c.definition =
      if c.declaresMethod name then some (c.callOutcome name argCount) else none := by
  unfold executeFound
  cases hfind : c.definition.findMethodIndex name with
  | none =>
      rw [findMethodIndex_definition, List.findIdx?_eq_none_iff] at hfind
      have hnone : c.declaresMethod name = false := List.any_eq_false.mpr fun m hm => by
        simpa using hfind m hm
      simp [hnone]
  | some i =>
      have hname := BreadClass.getElem?_of_findMethodIndex hfind
      have hdeclares : c.declaresMethod name = true := by
        rw [definition_methodNames] at hname
        obtain ⟨m, hm, hmname⟩ := List.mem_map.mp (List.mem_of_getElem? hname)
        exact List.any_eq_true.mpr ⟨m, hm, beq_iff_eq.mpr hmname⟩
      have hdirect : executeMethodDirect c.definition i argCount = c.callOutcome name argCount := by
        have hne : (some name == some "init".toList) = false :=
          beq_eq_false_iff_ne.mpr fun h => hinit (Option.some.inj h)
        unfold executeMethodDirect CgClass.callOutcome
        rw [hname, compiledMethod_definition hfind, hne, if_neg Bool.false_ne_true]
      simp [hdeclares, hdirect]

/-- A class is found under its name. -/
theorem find?_name_of_mem {classes : List CgClass} {c : CgClass}
    (hnodup : (classes.map CgClass.name).Nodup) (hc : c ∈ classes) :
    (classes.find? fun d => d.name == c.name) = some c := by
  cases hfind : classes.find? fun d => d.name == c.name with
  | none => simpa using List.find?_eq_none.mp hfind c hc
  | some d =>
      have hname : d.name = c.name := by simpa using List.find?_some hfind
      have hd := List.mem_of_find?_eq_some hfind
      rw [List.inj_on_of_nodup_map hnodup hd hc hname]

/-- An instance finds in itself what the definition of its class does. -/
theorem executeFound_instance {classes : List CgClass} {c : CgClass} (name : Ident)
    (argCount : ℕ) (hnodup : (classes.map CgClass.name).Nodup) (hc : c ∈ classes) :
    executeFound name argCount (c.instanceIn classes) =
        executeFound name argCount c.definition ∧
      (c.instanceIn classes).parentClass = c.parentName := by
  have hinstance : c.instanceIn classes = {
      className := c.name
      parentClass := c.definition.parentClass
      methodNames := c.methods.map ASTFuncDecl.name
      compiledMethods := (c.methods.map ASTFuncDecl.name).map fun m =>
        (c.definition.findMethodIndex m).bind c.definition.compiledMethod } := by
    unfold CgClass.instanceIn createInstance
    rw [connectAllClasses_eq classes hnodup, findDefinition_map, find?_name_of_mem hnodup hc]
    rfl
  rw [hinstance]
  refine ⟨?_, definition_parentClass c⟩
  have hnames := definition_methodNames c
  unfold executeFound
  have hfind : ∀ compiled, BreadClass.findMethodIndex ⟨c.name, c.definition.parentClass,
      c.methods.map ASTFuncDecl.name, compiled⟩ name = c.definition.findMethodIndex name := by
    intro compiled
    unfold BreadClass.findMethodIndex
    rw [hnames]
  rw [hfind]
  cases hindex : c.definition.findMethodIndex name with
  | none => rfl
  | some i =>
      have hname := BreadClass.getElem?_of_findMethodIndex hindex
      rw [hnames] at hname
      have hcompiled : BreadClass.compiledMethod ⟨c.name, c.definition.parentClass,
          c.methods.map ASTFuncDecl.name, (c.methods.map ASTFuncDecl.name).map fun m =>
            (c.definition.findMethodIndex m).bind c.definition.compiledMethod⟩ i =
          c.definition.compiledMethod i := by
        unfold BreadClass.compiledMethod
        rw [List.getElem?_map, hname, Option.map_some, Option.join_some, hindex]
        rfl
      rw [Option.map_some, Option.map_some]
      unfold executeMethodDirect
      rw [hcompiled, hnames]

theorem callOutcome_eq_runs_iff {c : CgClass} {name : Ident} {argCount : ℕ}
    {method : BreadCompiledMethod} :
    c.callOutcome name argCount = .runs method ↔
      argCount ≤ 3 ∧ c.lastMethod name = some method := by
  unfold CgClass.callOutcome callCompiledMethod
  cases c.lastMethod name with
  | none => simp
  | some method' => by_cases hle : argCount ≤ 3 <;> simp [hle]

/-- The walk of a call on an instance of a class is the one along the classes of
the generator. -/
theorem search_instance_iff (hnodup : (cg.classes.map CgClass.name).Nodup) {c : CgClass}
    (hc : c ∈ cg.classes) {name : Ident} (argCount : ℕ) (hinit : name ≠ "init".toList)
    (outcome : MethodCallOutcome) :
    Walk.search (BreadClass.parent (connectAllClasses cg.classes)) (executeFound name argCount)
        ((connectAllClasses cg.classes).length + 1) (c.instanceIn cg.classes) =
        some (some outcome) ↔
      ∃ t, cg.Implements name c t ∧ t.callOutcome name argCount = outcome := by
  obtain ⟨hfound, hparentClass⟩ := executeFound_instance name argCount hnodup hc
  rw [connectAllClasses_eq cg.classes hnodup]
  have hparent : (c.instanceIn cg.classes).parent (cg.classes.map CgClass.definition) =
      c.definition.parent (cg.classes.map CgClass.definition) := by
    unfold BreadClass.parent
    rw [hparentClass, definition_parentClass]
  have hclosed : ∀ r ∈ cg.classes.map CgClass.definition, ∀ r',
      r.parent (cg.classes.map CgClass.definition) = some r' →
        r' ∈ cg.classes.map CgClass.definition := by
    intro r _ r' hr'
    obtain ⟨name, -, hname⟩ := Option.bind_eq_some_iff.mp hr'
    exact List.mem_of_find?_eq_some hname
  rw [Walk.search_congr hfound hparent,
    Walk.search_eq_some_iff hclosed (List.mem_map_of_mem hc) (Nat.le_succ _),
    Walk.finds_map_iff parent_definition fun _ => rfl]
  simp only [executeFound_definition argCount hinit]
  exact Walk.finds_map_answer

/-- **What a method call on an instance runs**: the compiled method of the class
that implements it, unless the name is that of a built-in method or there are
more than three arguments. -/
theorem methodCallOp_runs_iff (hnodup : (cg.classes.map CgClass.name).Nodup) {c : CgClass}
    (hc : c ∈ cg.classes) {name : Ident} {argCount : ℕ} {method : BreadCompiledMethod} :
    methodCallOp (connectAllClasses cg.classes) (c.instanceIn cg.classes) name argCount =
        .runs method ↔
      name ∉ builtinMethods ∧ argCount ≤ 3 ∧
        ∃ t, cg.Implements name c t ∧ t.lastMethod name = some method := by
  by_cases hbuiltin : name ∈ builtinMethods
  · have hother : methodCallOp (connectAllClasses cg.classes) (c.instanceIn cg.classes) name
        argCount ≠ .runs method := by
      simp only [builtinMethods, List.mem_cons, List.not_mem_nil, or_false] at hbuiltin
      rcases hbuiltin with rfl | rfl | rfl <;> simp [methodCallOp]
    exact ⟨fun h => absurd h hother, fun h => absurd hbuiltin h.1⟩
  · have hinit : name ≠ "init".toList := by
      rintro rfl
      exact hbuiltin (by simp [builtinMethods])
    have hsearch := search_instance_iff hnodup hc argCount hinit (.runs method)
    simp only [callOutcome_eq_runs_iff] at hsearch
    rw [methodCallOp_eq _ _ argCount hbuiltin]
    have hmatch : ∀ r : Option (Option MethodCallOutcome),
        (match r with
        | none => .diverges
        | some none => .fails
        | some (some outcome) => outcome) = MethodCallOutcome.runs method ↔
          r = some (some (.runs method)) := by
      intro r
      cases r with
      | none => simp
      | some r => cases r <;> simp
    rw [hmatch, hsearch]
    constructor
    · rintro ⟨t, ht, hle, hlast⟩
      exact ⟨hbuiltin, hle, t, ht, hlast⟩
    · rintro ⟨-, hle, t, ht, hlast⟩
      exact ⟨t, ht, hle, hlast⟩

end Registry

end BreadLang
