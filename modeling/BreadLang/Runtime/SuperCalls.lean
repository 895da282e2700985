import BreadLang.Runtime.Inheritance

/-!
# Calls of `super`

The generator has a path of its own for `super.init`, which names the parent of the
class whose body it is in.  Every other call of `super` is an ordinary method call
on `self`, so the runtime looks for the method from the class of the receiver on.

`superCall_reaches_parent_iff` is exact: the implementation of the parent is
reached when no class from that of the receiver up to the one that contains the call
declares the method.  `superCall_again` is what happens otherwise to a method that
overrides another and calls it: it calls itself.
-/

namespace BreadLang

namespace ClassRegistry

open Relation

variable {F : Type}

/-! ### What the generated code does -/

/-- How a call of `super` ends. -/
inductive SuperResult (F : Type) where
  /-- The runtime function returns. -/
  | returned (result : Option BreadValue) (s : CallState F)
  /-- The runtime has no function of the name that the generator declares. -/
  | unresolved
  /-- The walk along the parents is longer than the bound. -/
  | unfinished

/-- The arguments of a call, as the pointer that the runtime gets. -/
def argPointer (args : List BreadValue) (i : ℕ) : BreadValue :=
  args.getD i .nil

theorem argList_argPointer (args : List BreadValue) :
    argList args.length (argPointer args) = args := by
  refine List.ext_getElem ?_ fun i hi hi' => ?_
  · simp [argList]
  · simp [argList, argPointer, hi']

/-- `bread_super_init_impl`.  The value that the constructor returns is dropped. -/
def superInitImpl (code : CompiledCode F) (registry : Registry F) (self : Ref)
    (parentName : Ident) (args : List BreadValue) (s : CallState F) :
    Option BreadValue × CallState F :=
  match findDefinition registry parentName with
  | none => (none, s)
  | some parentClass =>
      match parentClass.compiledConstructor with
      | some fn =>
          let called := callCompiled code fn self args.length (argPointer args) s
          (called.1.map fun _ => .nil, called.2)
      | none =>
          (some .nil, { s with
            objects := Function.update s.objects self
              ((s.objects self).setFieldsByPosition parentClass.fieldNames args) })

/-- The call that the generator emits for `super.init`: there are functions for up
to three arguments, and `bread_super_init_simple` is declared for more. -/
def superInit (code : CompiledCode F) (registry : Registry F) (self : Ref) (parentName : Ident)
    (args : List BreadValue) (s : CallState F) : SuperResult F :=
  if args.length ≤ 3 then
    let called := superInitImpl code registry self parentName args s
    .returned called.1 called.2
  else .unresolved

/-- A call of `super` in a method: `superInitParent` is the choice of the
generator. -/
def superCall (code : CompiledCode F) (cg : Cg) (registry : Registry F) (n : ℕ)
    (fn : CgCallee) (name : Ident) (args : List BreadValue) (self : Ref) (s : CallState F) :
    SuperResult F :=
  match superInitParent cg (some fn) .super name with
  | some parentName => superInit code registry self parentName args s
  | none =>
      match methodCallOp code registry n self name args.length (argPointer args) s with
      | some (result, s) => .returned result s
      | none => .unfinished

/-! ### What the call is for -/

/-- **The method of a class runs**: it is what the walk from the receiver finds, and
it is called once with the arguments. -/
def RunsMethodOf (code : CompiledCode F) (registry : Registry F) (n : ℕ) (t : CgClass) (fn : F)
    (name : Ident) (args : List BreadValue) (self : Ref) (s : CallState F)
    (result : SuperResult F) : Prop :=
  (∃ definingClass index,
    findMethodDefiningClass registry name n (s.objects self) =
        some (some (definingClass, index)) ∧
      definingClass.className = t.name ∧ definingClass.compiledMethod index = some fn) ∧
  ∃ out s', result = .returned out s' ∧ RunsOnce code fn self args s (out, s')

/-- **The constructor of the parent runs**, or its fields are set by position when it
has none. -/
def InitialisesParent (address : LLVMFunction → Option F) (parent : CgClass)
    (args : List BreadValue) (self : Ref) (s : CallState F)
    (result : SuperResult F) : Prop :=
  ∃ s', result = .returned (some .nil) s' ∧
    (∀ fn, constructorImplementation parent address = some fn →
      s'.invocations = s.invocations ++ [⟨fn, self, args⟩]) ∧
    (constructorImplementation parent address = none →
      s' = { s with
        objects := Function.update s.objects self
          ((s.objects self).setFieldsByPosition (parent.fields.map Prod.fst) args) })

section Calls

variable {cg : Cg} {address : LLVMFunction → Option F} {registry : Registry F}
  {code : CompiledCode F} {c parent d : CgClass} {callee : CgCallee} {name : Ident} {fn : F}
  {args : List BreadValue} {self : Ref} {s : CallState F} {n : ℕ}

/-- `super.init` names the parent of the class that contains it. -/
theorem superInitParent_init (hcallee : callee.currentClass = some c.name)
    (hfind : cg.findClass c.name = some c) :
    superInitParent cg (some callee) .super initName = c.parentName := by
  simp only [superInitParent, Option.bind_some, hcallee, hfind]
  rfl

/-- Every other method is called on `self`. -/
theorem superCall_of_ne (hname : name ≠ initName) {result : Option BreadValue × CallState F}
    (h : methodCallOp code registry n self name args.length (argPointer args) s = some result) :
    superCall code cg registry n callee name args self s = .returned result.1 result.2 := by
  have hnone : superInitParent cg (some callee) .super name = none :=
    if_neg fun heq => hname (eq_of_beq heq)
  simp only [superCall, hnone, h]

/-- The arguments that `callCompiled` passes on are those of the call. -/
theorem callCompiled_args_runsOnce_iff :
    RunsOnce code fn self args s
        (callCompiled code fn self args.length (argPointer args) s) ↔ args.length ≤ 3 := by
  have hiff : RunsOnce code fn self (argList args.length (argPointer args)) s
      (callCompiled code fn self args.length (argPointer args) s) ↔
        0 ≤ (args.length : ℤ) ∧ (args.length : ℤ) ≤ 3 := callCompiled_runsOnce_iff code s
  rw [argList_argPointer] at hiff
  rw [hiff]
  omega

/-- The constructor of the parent is called, when it has one. -/
theorem superInitImpl_of_some {dp : ClassObject F} {parentName : Ident}
    (hfind : findDefinition registry parentName = some dp)
    (hconstructor : dp.compiledConstructor = some fn) :
    superInitImpl code registry self parentName args s =
      ((callCompiled code fn self args.length (argPointer args) s).1.map fun _ => .nil,
        (callCompiled code fn self args.length (argPointer args) s).2) := by
  simp only [superInitImpl, hfind, hconstructor]

/-- The fields of the parent are set, when it has no constructor. -/
theorem superInitImpl_of_none {dp : ClassObject F} {parentName : Ident}
    (hfind : findDefinition registry parentName = some dp)
    (hconstructor : dp.compiledConstructor = none) :
    superInitImpl code registry self parentName args s =
      (some .nil, { s with
        objects := Function.update s.objects self
          ((s.objects self).setFieldsByPosition dp.fieldNames args) }) := by
  simp only [superInitImpl, hfind, hconstructor]

theorem superInit_of_le {parentName : Ident} (hlength : args.length ≤ 3) :
    superInit code registry self parentName args s =
      .returned (superInitImpl code registry self parentName args s).1
        (superInitImpl code registry self parentName args s).2 :=
  if_pos hlength

/-- **`super.init` reaches the constructor of the parent exactly when it has up to
three arguments.** -/
theorem superInit_initialisesParent_iff (h : Connected cg address registry)
    (hparent : parent ∈ cg.classes) :
    InitialisesParent address parent args self s
        (superInit code registry self parent.name args s) ↔ args.length ≤ 3 := by
  obtain ⟨dp, hfind, hdefines⟩ := h.exists_defines hparent
  have hconstructor := hdefines.compiledConstructor
  by_cases hlength : args.length ≤ 3
  · refine iff_of_true ?_ hlength
    rw [superInit_of_le hlength, InitialisesParent, ← hconstructor]
    cases hcompiled : dp.compiledConstructor with
    | some fn =>
        have hruns : RunsOnce code fn self args s
            (callCompiled code fn self args.length (argPointer args) s) :=
          callCompiled_args_runsOnce_iff.mpr hlength
        rw [superInitImpl_of_some hfind hcompiled, hruns.1]
        refine ⟨_, rfl, ?_, fun hnone => absurd hnone (Option.some_ne_none fn)⟩
        rintro fn' ⟨⟩
        exact hruns.2
    | none =>
        rw [superInitImpl_of_none hfind hcompiled, hdefines.describes.fieldNames]
        exact ⟨_, rfl, fun fn' hfn' => absurd hfn'.symm (Option.some_ne_none fn'), fun _ => rfl⟩
  · refine iff_of_false ?_ hlength
    have hunresolved : superInit code registry self parent.name args s = .unresolved :=
      if_neg hlength
    rw [hunresolved]
    rintro ⟨s', hreturned, -⟩
    cases hreturned

/-- A call of `super` runs the method of the class that implements it for the
receiver. -/
theorem superCall_runs_iff {t : CgClass} (hname : name ≠ initName)
    (hsearch : Walk.search (ClassRegistry.parent registry) (foundMethod name) n
      (s.objects self) = some (some (t.name, some fn))) :
    RunsMethodOf code registry n t fn name args self s
        (superCall code cg registry n callee name args self s) ↔
      name ∉ interceptedMethods ∧ args.length ≤ 3 := by
  by_cases hbuiltin : name ∈ interceptedMethods
  · refine iff_of_false ?_ fun hboth => hboth.1 hbuiltin
    have hcall : methodCallOp code registry n self name args.length (argPointer args) s =
        some (none, s) := by rw [methodCallOp, if_pos hbuiltin]
    rw [superCall_of_ne hname hcall]
    rintro ⟨-, out, s', hreturned, hruns⟩
    cases hreturned
    cases hruns.1
  · have hruns : RunsOnce code fn self args s
        (callCompiled code fn self args.length (argPointer args) s) ↔ args.length ≤ 3 :=
      callCompiled_args_runsOnce_iff
    rw [superCall_of_ne hname (methodCallOp_eq_callCompiled hbuiltin hname hsearch),
      and_iff_right hbuiltin, ← hruns]
    constructor
    · rintro ⟨-, out, s', hreturned, hruns⟩
      cases hreturned
      exact hruns
    · intro hruns
      obtain ⟨definingClass, index, hfound, -, hclass, hfn⟩ := exists_found hsearch
      exact ⟨⟨definingClass, index, hfound, hclass, hfn⟩, _, _, rfl, hruns⟩

/-! ### Which implementation it is -/

/-- No class from that of the receiver up to the one that contains the call declares
the method. -/
def NotDeclaredUpTo (cg : Cg) (d c : CgClass) (name : Ident) : Prop :=
  ∀ e, ReflTransGen cg.ParentOf d e → ReflTransGen cg.ParentOf e c → ¬ e.declaresMethod name

/-- The answer of the walk that looks for an implementation. -/
theorem implements_node {t x : CgClass}
    (h : (if x.declaresMethod name then some x else none) = some t) : x = t := by
  split at h
  · exact Option.some.inj h
  · cases h

/-- **The receiver implements the method as the parent does exactly when no class
below the parent declares it.** -/
theorem implements_parent_iff (hacyclic : cg.NoSelfAncestor)
    (hpath : ReflTransGen cg.ParentOf d c) (hparent : cg.ParentOf c parent) {t : CgClass}
    (ht : cg.Implements name parent t) :
    cg.Implements name d t ↔ NotDeclaredUpTo cg d c name := by
  constructor
  · intro hdt e hde hec hdeclares
    obtain ⟨x, t', hdx, hxe, hx, hfinds⟩ := Walk.exists_first (p := fun c =>
      if c.declaresMethod name then some c else none) hde (by simp [hdeclares])
    cases Walk.Finds.unique hdt hfinds
    obtain ⟨y, hpy, hy⟩ := Walk.Finds.exists_node ht
    rw [implements_node hx] at hxe
    rw [implements_node hy] at hpy
    -- the implementation would be below the parent and above it
    exact hacyclic t ((TransGen.tail' (hxe.trans hec) hparent).trans_left hpy)
  · intro hnone
    exact Walk.Finds.of_path hpath (fun x hdx hxc => if_neg (hnone x hdx hxc)) hparent ht

/-- The implementation is a class above the one it is looked up from. -/
theorem implements_mem {t : CgClass} (hd : d ∈ cg.classes) (ht : cg.Implements name d t) :
    t ∈ cg.classes := by
  obtain ⟨x, hdx, hx⟩ := Walk.Finds.exists_node ht
  rw [← implements_node hx]
  exact Walk.mem_of_reflTransGen (fun _ _ _ hstep => Cg.parentClass_mem hstep) hd hdx

/-- A method that the parent has is implemented for the receiver by some class. -/
theorem exists_implements (hpath : ReflTransGen cg.ParentOf d c)
    (hparent : cg.ParentOf c parent) {t : CgClass} (ht : cg.Implements name parent t) :
    ∃ t', cg.Implements name d t' := by
  by_cases hnone : NotDeclaredUpTo cg d c name
  · exact ⟨t, Walk.Finds.of_path hpath (fun x hdx hxc => if_neg (hnone x hdx hxc)) hparent ht⟩
  · unfold NotDeclaredUpTo at hnone
    push Not at hnone
    obtain ⟨e, hde, -, hdeclares⟩ := hnone
    obtain ⟨x, t', -, -, -, hfinds⟩ := Walk.exists_first (p := fun c =>
      if c.declaresMethod name then some c else none) hde (by simp [hdeclares])
    exact ⟨t', hfinds⟩

/-- The class that the walk finds is the one that implements the method. -/
theorem implements_of_runsMethodOf {t t' : CgClass} {result : SuperResult F}
    (hdistinct : (cg.classes.map CgClass.name).Nodup) (ht : t ∈ cg.classes)
    (ht' : t' ∈ cg.classes) {fn' : Option F}
    (hsearch : Walk.search (ClassRegistry.parent registry) (foundMethod name) n
      (s.objects self) = some (some (t'.name, fn')))
    (hruns : RunsMethodOf code registry n t fn name args self s result) : t' = t := by
  obtain ⟨⟨definingClass, index, hfound, hclass, -⟩, -⟩ := hruns
  obtain ⟨definingClass', index', hfound', -, hclass', -⟩ := exists_found hsearch
  cases hfound.symm.trans hfound'
  exact List.inj_on_of_nodup_map hdistinct ht' ht (hclass'.symm.trans hclass)

/-- **A call of `super` in a method of a class reaches what its parent has**: for
`init` the constructor, exactly when there are up to three arguments; for another
method the implementation of the nearest ancestor, exactly when moreover the method
is not built in and no class from that of the receiver up to the one that contains
the call declares it. -/
theorem superCall_reaches_parent_iff (code : CompiledCode F)
    (h : Connected cg address registry) (hc : c ∈ cg.classes) (hparent : cg.ParentOf c parent)
    (hd : d ∈ cg.classes) (hpath : ReflTransGen cg.ParentOf d c)
    (hcallee : callee.currentClass = some c.name) (fieldNames : List Ident) :
    ∃ N, ∀ n, N ≤ n → ∃ made,
      createInstance registry n d.name d.parentName fieldNames
          (d.methods.map ASTFuncDecl.name) = some made ∧
        ∀ (s : CallState F) (self : Ref) values (args : List BreadValue),
          s.objects self = { made with fieldValues := values } →
            (InitialisesParent address parent args self s
                (superCall code cg registry n callee initName args self s) ↔ args.length ≤ 3) ∧
            ∀ name, name ≠ initName → ∀ t, cg.Implements name parent t →
              ∀ fn, implementation t address name = some fn →
                (RunsMethodOf code registry n t fn name args self s
                    (superCall code cg registry n callee name args self s) ↔
                  NotDeclaredUpTo cg d c name ∧ name ∉ interceptedMethods ∧
                    args.length ≤ 3) := by
  obtain ⟨k, lineage, hlineage⟩ := h.acyclic.exists_chain hd
  have hparentMem := Cg.parentClass_mem hparent
  refine ⟨max k cg.classes.length, fun n hn => ?_⟩
  obtain ⟨dd, made, hdefines, hmade, hfrom⟩ :=
    h.exists_createInstance hd hlineage (le_of_max_le_left hn) fieldNames
  refine ⟨made, hmade, fun s self values args hself => ⟨?_, ?_⟩⟩
  · have hsome : superInitParent cg (some callee) .super initName = some parent.name :=
      (superInitParent_init hcallee (find?_name_of_mem h.distinct hc)).trans
        (Cg.parentClass_name hparent)
    simp only [superCall, hsome]
    exact superInit_initialisesParent_iff h hparentMem
  · intro name hname t ht fn hfn
    have hsearch : ∀ t', cg.Implements name d t' →
        Walk.search (ClassRegistry.parent registry) (foundMethod name) n (s.objects self) =
          some (some (t'.name, implementation t' address name)) := fun t' ht' => by
      rw [hfrom.search_eq hself, h.search_eq hdefines ht' (le_of_max_le_right hn)]
    rw [← implements_parent_iff h.acyclic hpath hparent ht]
    constructor
    · intro hruns
      obtain ⟨t', ht'⟩ := exists_implements hpath hparent ht
      obtain rfl := implements_of_runsMethodOf h.distinct (implements_mem hparentMem ht)
        (implements_mem hd ht') (hsearch t' ht') hruns
      have hfound := hsearch t' ht'
      rw [hfn] at hfound
      exact ⟨ht', (superCall_runs_iff hname hfound).mp hruns⟩
    · rintro ⟨hdt, hrest⟩
      have hfound := hsearch t hdt
      rw [hfn] at hfound
      exact (superCall_runs_iff hname hfound).mpr hrest

/-- **A method that overrides another and calls `super` calls itself**, on an
instance of its own class. -/
theorem superCall_again (code : CompiledCode F) (h : Connected cg address registry)
    (hc : c ∈ cg.classes) (hname : name ≠ initName) (hbuiltin : name ∉ interceptedMethods)
    (hdeclares : c.declaresMethod name) (hfn : implementation c address name = some fn)
    (fieldNames : List Ident) :
    ∃ N, ∀ n, N ≤ n → ∃ made,
      createInstance registry n c.name c.parentName fieldNames
          (c.methods.map ASTFuncDecl.name) = some made ∧
        ∀ (s : CallState F) (self : Ref) values (args : List BreadValue),
          s.objects self = { made with fieldValues := values } → args.length ≤ 3 →
            RunsMethodOf code registry n c fn name args self s
              (superCall code cg registry n callee name args self s) := by
  obtain ⟨k, lineage, hlineage⟩ := h.acyclic.exists_chain hc
  refine ⟨max k cg.classes.length, fun n hn => ?_⟩
  obtain ⟨dd, made, hdefines, hmade, hfrom⟩ :=
    h.exists_createInstance hc hlineage (le_of_max_le_left hn) fieldNames
  refine ⟨made, hmade, fun s self values args hself hlength => ?_⟩
  have hown : cg.Implements name c c := .here (if_pos hdeclares)
  refine (superCall_runs_iff hname ?_).mpr ⟨hbuiltin, hlength⟩
  rw [hfrom.search_eq hself, h.search_eq hdefines hown (le_of_max_le_right hn), hfn]

end Calls

/-! ### A method that is inherited, and one that is overridden -/

/-- A method of the class `Circle`, which declares none of its own. -/
def inCircle : CgCallee := ⟨[], false, some circleClass.name⟩

/-- `super.draw()` in a circle draws a shape. -/
theorem circle_super_draws : ∃ n made,
    createInstance shapeRegistry n circleClass.name circleClass.parentName []
        (circleClass.methods.map ASTFuncDecl.name) = some made ∧
      RunsMethodOf lastArgument shapeRegistry n shapeClass 0 "draw".toList [] 0
        ⟨fun _ => made, []⟩
        (superCall lastArgument shapes shapeRegistry n inCircle "draw".toList [] 0
          ⟨fun _ => made, []⟩) := by
  have hparent : shapes.ParentOf circleClass shapeClass := rfl
  have hdraw : shapes.Implements "draw".toList shapeClass shapeClass := .here rfl
  obtain ⟨N, hN⟩ := @superCall_reaches_parent_iff ℕ shapes byNumber shapeRegistry circleClass
    shapeClass circleClass inCircle lastArgument shapes_connected List.mem_cons_self hparent
    List.mem_cons_self .refl rfl []
  obtain ⟨made, hmade, hcalls⟩ := hN N (Nat.le_refl N)
  refine ⟨N, made, hmade, ?_⟩
  refine ((hcalls ⟨fun _ => made, []⟩ 0 made.fieldValues [] rfl).2 _ (by decide) _ hdraw _
    (by decide)).mpr ⟨?_, by decide, by decide⟩
  intro e hup hdown hdeclares
  rcases reflTransGen_iff_eq_or_transGen.mp hup with rfl | hup
  · exact absurd hdeclares (by decide)
  · exact shapes_noSelfAncestor circleClass (hup.trans_left hdown)

/-- `class Disc extends Shape { def draw() {} }`. -/
def discClass : CgClass where
  name := "Disc".toList
  parentName := some "Shape".toList
  fields := []
  methods := [plainMethod "draw"]
  constructor := none
  methodFunctions := [some ⟨"Disc_draw".toList, 2, 2⟩]
  constructorFunction := none

/-- The generator after the classes `Shape` and `Disc`. -/
def discs : Cg := { Cg.init with classes := [discClass, shapeClass] }

/-- The registry of both. -/
def discRegistry : Registry ℕ :=
  (connectAllClasses (some byNumber) discs.classes).getD []

/-- A method of the class `Disc`. -/
def inDisc : CgCallee := ⟨[], false, some discClass.name⟩

/-- `super.draw()` in the method `draw` of a disc does not draw a shape: it calls the
method of the disc, which is the function two. -/
theorem disc_super_draws_itself : ∃ made,
    createInstance discRegistry 2 discClass.name discClass.parentName []
        (discClass.methods.map ASTFuncDecl.name) = some made ∧
      discs.ParentOf discClass shapeClass ∧
      discs.Implements "draw".toList shapeClass shapeClass ∧
      implementation shapeClass byNumber "draw".toList = some 0 ∧
      ¬ RunsMethodOf lastArgument discRegistry 2 shapeClass 0 "draw".toList [] 0
        ⟨fun _ => made, []⟩
        (superCall lastArgument discs discRegistry 2 inDisc "draw".toList [] 0
          ⟨fun _ => made, []⟩) ∧
      ∃ out s, superCall lastArgument discs discRegistry 2 inDisc "draw".toList [] 0
        ⟨fun _ => made, []⟩ = .returned out s ∧ s.invocations = [⟨2, 0, []⟩] := by
  refine ⟨_, rfl, rfl, .here rfl, by decide, ?_, _, _, rfl, rfl⟩
  rintro ⟨⟨definingClass, index, hfound, hclass, -⟩, -⟩
  cases hfound
  exact absurd hclass (by decide)

end ClassRegistry

end BreadLang
