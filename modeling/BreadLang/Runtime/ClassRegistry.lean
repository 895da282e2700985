import BreadLang.Codegen.Context
import BreadLang.Library.Chain
import BreadLang.Runtime.ClassObject

/-!
# The registry of class definitions

`cg_connect_all_classes_to_runtime` makes a definition of each class of the
generator, asks the execution engine for the address of each compiled function,
and resolves the parents at the end.  The engine is a parameter.

The walks along the parents take a bound on their steps; a walk that has no result
for any bound does not return.
-/

namespace BreadLang

namespace ClassRegistry

variable {F : Type}

/-- The array of the definitions. -/
abbrev Registry (F : Type) := List (ClassObject F)

/-- `bread_class_find_definition`. -/
def findDefinition (registry : Registry F) (name : Ident) : Option (ClassObject F) :=
  registry.find? fun c => c.className == name

/-- `bread_class_register_definition`. -/
def registerDefinition (registry : Registry F) (c : ClassObject F) : Registry F :=
  match findDefinition registry c.className with
  | some _ => registry.map fun d => if d.className == c.className then c else d
  | none => registry ++ [c]

/-- The body of the loop of `bread_class_resolve_inheritance`. -/
def resolveParent (registry : Registry F) (c : ClassObject F) : ClassObject F :=
  match c.parentClass with
  | some _ => c
  | none =>
      { c with
        parentClass :=
          (c.parentName.bind (findDefinition registry)).map ClassObject.className }

/-- `bread_class_resolve_inheritance`. -/
def resolveInheritance (registry : Registry F) : Registry F :=
  registry.map (resolveParent registry)

/-! ### Connecting the compiled code -/

/-- `LLVMGetFunctionAddress`, when there is an execution engine. -/
abbrev Engine (F : Type) := Option (LLVMFunction → Option F)

/-- The loop of `cg_connect_class_to_runtime` over the methods. -/
def connectMethods (address : LLVMFunction → Option F) :
    List (FuncDecl × Option LLVMFunction) → ClassObject F → ClassObject F
  | [], runtime => runtime
  | (decl, fn) :: methods, runtime =>
      connectMethods address methods
        (match runtime.findMethodIndex decl.name, fn.bind address with
        | some index, some compiled => runtime.setCompiledMethod index compiled
        | _, _ => runtime)

/-- `cg_connect_class_to_runtime`: `none` when the constructor has no address. -/
def connectClassToRuntime (engine : Engine F) (c : CgClass) (runtime : ClassObject F) :
    Option (ClassObject F) :=
  match engine with
  | none => some runtime
  | some address =>
      let methods := c.methods.zip c.methodFunctions
      match c.constructor, c.constructorFunction with
      | some _, some fn =>
          (address fn).map fun ctor =>
            connectMethods address methods { runtime with compiledConstructor := some ctor }
      | _, _ => some (connectMethods address methods runtime)

/-- The definition of a class before it is connected. -/
def newDefinition (c : CgClass) : ClassObject F :=
  .newWithMethods c.name c.parentName (c.fields.map Prod.fst) (c.methods.map ASTFuncDecl.name)

/-- The loop body of `cg_connect_all_classes_to_runtime`. -/
def connectClass (engine : Engine F) (registry : Registry F) (c : CgClass) :
    Option (Registry F) :=
  match findDefinition registry c.name with
  | some runtime => (connectClassToRuntime engine c runtime).map fun runtime =>
      registry.map fun d => if d.className == c.name then runtime else d
  | none => (connectClassToRuntime engine c (newDefinition c)).map (registerDefinition registry)

/-- `cg_connect_all_classes_to_runtime`. -/
def connectAllClasses (engine : Engine F) (classes : List CgClass) : Option (Registry F) :=
  (classes.foldlM (connectClass engine) []).map resolveInheritance

/-! ### Walks along the parents -/

/-- The definition that `parent_class` points to. -/
def parent (registry : Registry F) (c : ClassObject F) : Option (ClassObject F) :=
  c.parentClass.bind (findDefinition registry)

/-- `bread_class_collect_all_fields`. -/
def collectAllFields (registry : Registry F) : ℕ → ClassObject F → Option (List Ident) :=
  Walk.collect (parent registry) ClassObject.fieldNames

/-- `bread_class_find_method_defining_class`: the class and the index of the
method in it. -/
def findMethodDefiningClass (registry : Registry F) (name : Ident) :
    ℕ → ClassObject F → Option (Option (ClassObject F × ℕ)) :=
  Walk.search (parent registry) fun c => (c.findMethodIndex name).map fun index => (c, index)

/-! ### What the registry holds -/

/-- What a class and its definition have in common, whatever has been connected.
The pointer to the parent is set to the class of that name or not at all. -/
structure Describes (c : CgClass) (d : ClassObject F) : Prop where
  className : d.className = c.name
  parentName : d.parentName = c.parentName
  parentClass : d.parentClass = none ∨ d.parentClass = c.parentName
  fieldNames : d.fieldNames = c.fields.map Prod.fst
  methodNames : d.methodNames = c.methods.map ASTFuncDecl.name

section Describes

variable {c : CgClass} {engine : Engine F} {d d' : ClassObject F} {registry : Registry F}

theorem findDefinition_className {name : Ident} (h : findDefinition registry name = some d) :
    d.className = name := by
  simpa using List.find?_some h

theorem describes_newDefinition (c : CgClass) : Describes c (newDefinition c : ClassObject F) :=
  ⟨rfl, rfl, .inl rfl, rfl, rfl⟩

theorem Describes.connectMethods {address : LLVMFunction → Option F}
    (methods : List (FuncDecl × Option LLVMFunction)) (h : Describes c d) :
    Describes c (connectMethods address methods d) := by
  induction methods generalizing d with
  | nil => exact h
  | cons m methods ih =>
      obtain ⟨decl, fn⟩ := m
      rw [ClassRegistry.connectMethods]
      refine ih ?_
      split
      · exact ⟨h.className, h.parentName, h.parentClass, h.fieldNames, h.methodNames⟩
      · exact h

theorem Describes.connected (h : Describes c d)
    (hconnect : connectClassToRuntime engine c d = some d') : Describes c d' := by
  unfold connectClassToRuntime at hconnect
  split at hconnect
  · exact Option.some.inj hconnect ▸ h
  · split at hconnect
    · obtain ⟨ctor, -, rfl⟩ := Option.map_eq_some_iff.mp hconnect
      exact .connectMethods _
        ⟨h.className, h.parentName, h.parentClass, h.fieldNames, h.methodNames⟩
    · exact Option.some.inj hconnect ▸ .connectMethods _ h

theorem Describes.resolveParent (registry : Registry F) (h : Describes c d) :
    Describes c (resolveParent registry d) := by
  unfold ClassRegistry.resolveParent
  split
  · exact h
  · refine ⟨h.className, h.parentName, ?_, h.fieldNames, h.methodNames⟩
    dsimp only
    cases hfind : d.parentName.bind (findDefinition registry) with
    | none => exact .inl rfl
    | some r =>
        obtain ⟨name, hname, hr⟩ := Option.bind_eq_some_iff.mp hfind
        right
        rw [Option.map_some, findDefinition_className hr, ← h.parentName, hname]

/-- A class whose name is new gets a definition of its own, behind the others. -/
theorem connectClass_of_new (hnew : ∀ d ∈ registry, d.className ≠ c.name)
    {registry' : Registry F} (h : connectClass engine registry c = some registry') :
    ∃ d, connectClassToRuntime engine c (newDefinition c) = some d ∧
      registry' = registry ++ [d] := by
  have hnone : findDefinition registry c.name = none :=
    List.find?_eq_none.mpr fun d hd => by simpa using hnew d hd
  simp only [connectClass, hnone] at h
  obtain ⟨d, hd, rfl⟩ := Option.map_eq_some_iff.mp h
  refine ⟨d, hd, ?_⟩
  rw [registerDefinition, ((describes_newDefinition c).connected hd).className, hnone]

/-- The definitions of classes whose names are new, in their order. -/
theorem connectClasses_of_new {classes : List CgClass} {registry' : Registry F}
    (hnodup : (classes.map CgClass.name).Nodup)
    (hnew : ∀ c ∈ classes, ∀ d ∈ registry, d.className ≠ c.name)
    (h : classes.foldlM (connectClass engine) registry = some registry') :
    ∃ connected, List.Forall₂
        (fun c d => connectClassToRuntime engine c (newDefinition c) = some d) classes connected ∧
      registry' = registry ++ connected := by
  induction classes generalizing registry with
  | nil => exact ⟨[], .nil, by rw [← Option.some.inj h, List.append_nil]⟩
  | cons c classes ih =>
      rw [List.foldlM_cons, Option.bind_eq_bind, Option.bind_eq_some_iff] at h
      obtain ⟨middle, hmiddle, h⟩ := h
      obtain ⟨hfirst, hrest⟩ := List.forall_mem_cons.mp hnew
      obtain ⟨d, hd, rfl⟩ := connectClass_of_new hfirst hmiddle
      rw [List.map_cons, List.nodup_cons] at hnodup
      have hnew' : ∀ c' ∈ classes, ∀ e ∈ registry ++ [d], e.className ≠ c'.name := by
        intro c' hc' e he
        rcases List.mem_append.mp he with he | he
        · exact hrest c' hc' e he
        · rw [List.mem_singleton.mp he, ((describes_newDefinition c).connected hd).className]
          exact fun heq => hnodup.1 (heq ▸ List.mem_map_of_mem hc')
      obtain ⟨connected, hconnected, rfl⟩ := ih hnodup.2 hnew' h
      exact ⟨d :: connected, .cons hd hconnected, by simp⟩

/-- **The registry holds one definition of each class**, with the parents
resolved. -/
theorem connectAllClasses_eq_some {classes : List CgClass}
    (hnodup : (classes.map CgClass.name).Nodup)
    (h : connectAllClasses engine classes = some registry) :
    ∃ connected, List.Forall₂
        (fun c d => connectClassToRuntime engine c (newDefinition c) = some d) classes connected ∧
      registry = resolveInheritance connected := by
  obtain ⟨connected, hconnected, rfl⟩ := Option.map_eq_some_iff.mp h
  obtain ⟨_, hforall, rfl⟩ :=
    connectClasses_of_new hnodup (fun _ _ _ hd => absurd hd List.not_mem_nil) hconnected
  exact ⟨connected, hforall, rfl⟩

/-- Every definition of the registry describes a class. -/
theorem exists_describes {classes : List CgClass} (hnodup : (classes.map CgClass.name).Nodup)
    (h : connectAllClasses engine classes = some registry) (hd : d ∈ registry) :
    ∃ c ∈ classes, Describes c d := by
  obtain ⟨connected, hforall, rfl⟩ := connectAllClasses_eq_some hnodup h
  obtain ⟨e, he, rfl⟩ := List.mem_map.mp hd
  obtain ⟨i, hi, rfl⟩ := List.mem_iff_getElem.mp he
  have hlt : i < classes.length := hforall.length_eq.symm ▸ hi
  have hconnected := hforall.get hlt hi
  exact ⟨classes[i], List.getElem_mem hlt,
    .resolveParent connected ((describes_newDefinition _).connected hconnected)⟩

end Describes

end ClassRegistry

end BreadLang
