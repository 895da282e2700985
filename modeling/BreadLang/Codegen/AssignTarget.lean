import BreadLang.Codegen.Steps
import BreadLang.Codegen.SemanticFacts

/-!
# Where a name is read and where it is written

A read of a name in a function looks at the scope of the function, then at the
fields of the class of `self`, and then at the variable of that name at run
time.  A plain assignment looks at the scope only and adds the name to it when
it is not there; a compound assignment looks at the scope and then at the
variable at run time.  Neither looks at the fields of `self`.

`assignment_agrees_iff` says exactly which assignments write to the place that a
read of the name at that point loads from.
-/

namespace BreadLang

open Stateful

/-! ### Reads -/

/-- The place that the code of a variable loads from. -/
def Code.location : Code → Option Location
  | .op (.box _) [.load _ s] => some (.slot s)
  | .cloneSlot s => some (.slot s)
  | .op (.memberOp name false) [.selfParam] => some (.selfField name)
  | .varLoad name => some (.global name)
  | _ => none

/-- A state of the generator with the given scope and classes. -/
def Cg.at (scope : List CgVar) (classes : List CgClass) : Cg :=
  { Cg.init with scope := scope, classes := classes }

/-- **The place that a read of a name loads from**, in a function whose scope and
whose classes are the given ones. -/
def readLocation (fn : Option CgCallee) (scope : List CgVar) (classes : List CgClass)
    (name : Ident) : Option Location :=
  (buildVar (.at scope classes) fn name).location

section Reads

variable {cg cg' : Cg} {fn : Option CgCallee} {name : Ident}

theorem isFieldLoop_congr (hclasses : cg.classes = cg'.classes) (n : ℕ) (c : CgClass) :
    isFieldLoop cg name n c = isFieldLoop cg' name n c := by
  have hparent : ∀ c, cg.parentClass c = cg'.parentClass c := by
    intro c
    unfold Cg.parentClass Cg.findClass
    rw [hclasses]
  induction n generalizing c with
  | zero => rfl
  | succ n ih =>
      unfold isFieldLoop
      rw [hparent]
      cases cg'.parentClass c with
      | none => rfl
      | some parent => simp only [ih]

theorem isSelfField_congr (hclasses : cg.classes = cg'.classes) :
    isSelfField cg fn name = isSelfField cg' fn name := by
  have hfind : cg.findClass = cg'.findClass := by
    unfold Cg.findClass
    rw [hclasses]
  unfold isSelfField
  rw [hfind]
  cases (fn.bind CgCallee.currentClass).bind cg'.findClass with
  | none => rfl
  | some c => exact isFieldLoop_congr hclasses 64 c

/-- What is built for a variable depends on the scope and the classes only. -/
theorem buildVar_congr (hscope : cg.scope = cg'.scope) (hclasses : cg.classes = cg'.classes) :
    buildVar cg fn name = buildVar cg' fn name := by
  have hfind : cg.scopeFindVar = cg'.scopeFindVar := by
    unfold Cg.scopeFindVar
    rw [hscope]
  unfold buildVar
  rw [hfind, isSelfField_congr hclasses]

/-- So the place that the code loads from is the one of the scope and the classes
it is built in. -/
theorem buildVar_location (cg : Cg) (fn : Option CgCallee) (name : Ident) :
    (buildVar cg fn name).location = readLocation fn cg.scope cg.classes name :=
  congrArg Code.location (buildVar_congr rfl rfl)

theorem location_of_local {var : CgVar} (h : localVar cg fn name = some var) :
    (buildVar cg fn name).location = some (.slot var.alloca) := by
  unfold localVar at h
  unfold buildVar
  rw [h]
  cases hunboxed : var.unboxedType with
  | none => simp [hunboxed, Code.location]
  | some type => simp [hunboxed, Code.location]

theorem location_of_not_local (h : localVar cg fn name = none) :
    (buildVar cg fn name).location =
      some (if isSelfField cg fn name then .selfField name else .global name) := by
  unfold localVar at h
  unfold buildVar
  rw [h]
  cases isSelfField cg fn name <;> rfl

end Reads

/-! ### Assignments -/

/-- **An assignment that writes in place**: one at top level; one to a name in the
scope of the function; or a compound one to a name that is no field of
`self`. -/
def InPlace (fn : Option CgCallee) (scope : List CgVar) (classes : List CgClass)
    (name : Ident) (op : Option Char) : Prop :=
  fn = none ∨ (localVar (.at scope classes) fn name).isSome ∨
    (op.isSome ∧ isSelfField (.at scope classes) fn name = false)

section Assignments

variable {scope : List CgVar} {classes : List CgClass} {fn : Option CgCallee} {name : Ident}
  {op : Option Char} {target target' : Location}

/-- Reads and writes agree exactly on the assignments that write in place. -/
theorem AssignsTo.agrees_iff (h : AssignsTo (.at scope classes) fn name op target) :
    readLocation fn scope classes name = some target ↔ InPlace fn scope classes name op := by
  unfold readLocation InPlace
  cases h with
  | localSlot var h => simp [location_of_local h, h]
  | newSlot slot hfn h =>
      rw [location_of_not_local h, h]
      cases isSelfField (.at scope classes) fn name <;> simp [Option.isSome_iff_ne_none.mp hfn]
  | runtimeVar hfn h =>
      rw [location_of_not_local h, h]
      cases hself : isSelfField (.at scope classes) fn name with
      | false =>
          rcases hfn with rfl | hop
          · simp
          · simp [hop]
      | true =>
          -- a field of `self` is read in a method only
          have hne : fn ≠ none := by
            rintro rfl
            cases hself
          simp [hne]

/-- A plain and a compound assignment write to the same place exactly when the
plain one writes in place. -/
theorem AssignsTo.same_target_iff {c : Char}
    (h : AssignsTo (.at scope classes) fn name none target)
    (h' : AssignsTo (.at scope classes) fn name (some c) target') :
    target = target' ↔ InPlace fn scope classes name none := by
  unfold InPlace
  cases h with
  | localSlot var h =>
      cases h' with
      | localSlot var' h' =>
          have heq : var = var' := Option.some.inj (h.symm.trans h')
          simp [h, heq]
      | runtimeVar _ h' =>
          rw [h] at h'
          cases h'
  | newSlot slot hfn h =>
      cases h' with
      | localSlot var' h' =>
          rw [h] at h'
          cases h'
      | runtimeVar _ _ => simp [h, Option.isSome_iff_ne_none.mp hfn]
  | runtimeVar hfn h =>
      have hnone : fn = none := by simpa using hfn
      cases h' with
      | localSlot var' h' =>
          rw [h] at h'
          cases h'
      | runtimeVar _ _ => simp [hnone]

end Assignments

/-! ### The emitted code -/

/-- The place that an assignment stores to. -/
def CodeStmt.target : CodeStmt → Option Location
  | .storeSlot s _ _ => some (.slot s)
  | .storeUnboxed s _ _ _ => some (.slot s)
  | .varAssign name _ => some (.global name)
  | _ => none

/-- The code of an assignment is one store, and the trace says where to. -/
def RecordsTarget (fn : Option CgCallee) (name : Ident) (op : Option Char)
    (code : List CodeStmt) (trace : List CgEvent) : Prop :=
  ∃ stmt target scope classes, code = [stmt] ∧ stmt.target = some target ∧
    .variableAssigned fn scope classes name op target ∈ trace

section Emitted

variable {n : ℕ} {cg : Cg} {fn : Option CgCallee} {name : Ident} {value : ASTExpr}
  {code : List CodeStmt}

theorem buildBoxedAssign_target
    (h : (buildBoxedAssign (builder n) fn name value).result cg = .ok code) :
    RecordsTarget fn name none code
      ((buildBoxedAssign (builder n) fn name value).final cg).trace := by
  obtain ⟨v, hv, hrest⟩ := result_bind_eq_ok.mp h
  unfold buildBoxedAssign
  rw [final_bind_of_ok hv]
  generalize ((builder n).expr fn value).final cg = t at hrest ⊢
  cases fn with
  | none =>
      cases hrest
      exact ⟨_, _, _, _, rfl, rfl, List.mem_cons_self⟩
  | some callee =>
      simp only [result_get_bind, final_get_bind] at hrest ⊢
      cases hlocal : localVar t (some callee) name with
      | some var =>
          rw [hlocal] at hrest
          cases hrest
          exact ⟨_, _, _, _, rfl, rfl, List.mem_cons_self⟩
      | none =>
          rw [hlocal] at hrest
          cases hrest
          exact ⟨_, _, _, _, rfl, rfl, List.mem_cons_self⟩

theorem buildBoxedCompoundAssign_target {op : Char}
    (h : (buildBoxedCompoundAssign (builder n) fn name value op).result cg = .ok code) :
    RecordsTarget fn name (some op) code
      ((buildBoxedCompoundAssign (builder n) fn name value op).final cg).trace := by
  obtain ⟨l, hl, hrest⟩ := result_bind_eq_ok.mp h
  obtain ⟨r, hr, hrest⟩ := result_bind_eq_ok.mp hrest
  unfold buildBoxedCompoundAssign
  rw [final_bind_of_ok hl, final_bind_of_ok hr]
  generalize ((builder n).expr fn value).final _ = t at hrest ⊢
  simp only [result_get_bind, final_get_bind] at hrest ⊢
  cases hlocal : localVar t fn name with
  | some var =>
      rw [hlocal] at hrest
      cases hrest
      exact ⟨_, _, _, _, rfl, rfl, List.mem_cons_self⟩
  | none =>
      rw [hlocal] at hrest
      cases hrest
      exact ⟨_, _, _, _, rfl, rfl, List.mem_cons_self⟩

theorem buildUnboxedAssign_target {slot : StackSlot} {type : UnboxedType}
    (h : (buildUnboxedAssign (builder n) fn slot type value).result cg = .ok code) :
    ∃ v, code = [.storeUnboxed slot type v none] := by
  obtain ⟨v, -, hrest⟩ := result_bind_eq_ok.mp h
  cases v with
  | boxed v =>
      cases v with
      | none => cases hrest
      | some v =>
          cases hrest
          exact ⟨_, rfl⟩
  | unboxed t v =>
      cases hrest
      exact ⟨_, rfl⟩

theorem buildUnboxedCompoundAssign_target {slot : StackSlot} {type : UnboxedType} {op : Char}
    (h : (buildUnboxedCompoundAssign (builder n) fn slot type value op).result cg = .ok code) :
    ∃ v, code = [.storeUnboxed slot type v none] := by
  obtain ⟨rhs, -, hrest⟩ := result_bind_eq_ok.mp h
  have hboxed : ∀ {rhs : CgValue} {t : Cg}, Stateful.result (do
      let boxedRhs ← Lower.deref (boxValue rhs)
      let result := Code.op (.binaryOp op) [.op (.box type) [.load type slot], boxedRhs]
      return [CodeStmt.storeUnboxed slot type (.boxed (some result)) none]) t = .ok code →
      ∃ v, code = [.storeUnboxed slot type v none] := by
    intro rhs t h
    obtain ⟨v, -, hrest⟩ := result_bind_eq_ok.mp h
    cases hrest
    exact ⟨_, rfl⟩
  cases rhs with
  | boxed v => exact hboxed hrest
  | unboxed t v =>
      simp only at hrest
      cases hop : compoundInstruction op type t with
      | none =>
          rw [hop] at hrest
          exact hboxed hrest
      | some instruction =>
          rw [hop] at hrest
          cases hrest
          exact ⟨_, rfl⟩

/-- **The trace says where an assignment stores.** -/
theorem buildVarAssign_target {op : Option Char}
    (h : (buildVarAssign (builder n) fn name value op).result cg = .ok code) :
    RecordsTarget fn name op code
      ((buildVarAssign (builder n) fn name value op).final cg).trace := by
  unfold buildVarAssign at h ⊢
  simp only [result_get_bind, final_get_bind] at h ⊢
  cases hslot : unboxedSlot cg fn name with
  | none =>
      rw [hslot] at h
      cases op with
      | none => exact buildBoxedAssign_target h
      | some op => exact buildBoxedCompoundAssign_target h
  | some s =>
      obtain ⟨type, slot⟩ := s
      rw [hslot] at h
      have hkept : ∀ {m : Lower (List CodeStmt)} {t : Cg} {event : CgEvent},
          Lower.Steps t m → event ∈ t.trace → event ∈ (m.final t).trace :=
        fun hm hevent => (hm _ .refl).trace_suffix.subset hevent
      cases op with
      | none =>
          obtain ⟨v, rfl⟩ := buildUnboxedAssign_target h
          refine ⟨_, _, cg.scope, cg.classes, rfl, rfl, ?_⟩
          exact hkept (t := { cg with
            trace := .variableAssigned fn cg.scope cg.classes name none (.slot slot) :: cg.trace })
            (keeps_buildUnboxedAssign (builder_steps _ n).keepsExpr fn slot type value) List.mem_cons_self
      | some op =>
          obtain ⟨v, rfl⟩ := buildUnboxedCompoundAssign_target h
          refine ⟨_, _, cg.scope, cg.classes, rfl, rfl, ?_⟩
          exact hkept (t := { cg with
            trace := .variableAssigned fn cg.scope cg.classes name (some op) (.slot slot) ::
              cg.trace })
            (keeps_buildUnboxedCompoundAssign (builder_steps _ n).keepsExpr fn slot type value op)
            List.mem_cons_self

end Emitted

/-! ### Programs -/

/-- An event, if it is an assignment, stores where assignments do. -/
def CgEvent.Assigns : CgEvent → Prop
  | .variableAssigned fn scope classes name op target =>
      AssignsTo (.at scope classes) fn name op target
  | _ => True

theorem AssignsTo.at_scope {cg : Cg} {fn : Option CgCallee} {name : Ident} {op : Option Char}
    {target : Location} (h : AssignsTo cg fn name op target) :
    AssignsTo (.at cg.scope cg.classes) fn name op target := by
  cases h with
  | localSlot var h => exact .localSlot var h
  | newSlot slot hfn h => exact .newSlot slot hfn h
  | runtimeVar hfn h => exact .runtimeVar hfn h

theorem CgStep.assigns {cg cg' : Cg} (hstep : CgStep cg cg')
    (h : ∀ event ∈ cg.trace, event.Assigns) : ∀ event ∈ cg'.trace, event.Assigns := by
  cases hstep with
  | assign fn name op target hassigns =>
      exact List.forall_mem_cons.mpr ⟨hassigns.at_scope, h⟩
  | function => exact List.forall_mem_cons.mpr ⟨trivial, h⟩
  | call => exact List.forall_mem_cons.mpr ⟨trivial, h⟩
  | methodCall => exact List.forall_mem_cons.mpr ⟨trivial, h⟩
  | _ => exact h

/-- Every assignment of a generated module stores where assignments do. -/
theorem buildModule_assigns {program program' : ASTStmtList} {cg : Cg}
    (haccepted : semanticAnalyze .init program = .ok (program', cg)) (n : ℕ) :
    ∀ event ∈ ((buildModule n program').final cg).trace, event.Assigns := by
  refine (buildModule_reaches n program' cg).invariant (fun _ _ hstep => hstep.assigns) ?_
  rw [(Analyze.semanticAnalyze_spec haccepted).1.trace_eq]
  exact fun event h => absurd h List.not_mem_nil

/-- **Reads and writes of a name agree exactly when the assignment is in place.**
For every assignment that is built in an accepted program, a read of the name at
that point loads from where the assignment stores if and only if the assignment
writes in place; and a plain assignment stores where a compound one would if and
only if it does. -/
theorem assignment_agrees_iff {program program' : ASTStmtList} {cg : Cg}
    (haccepted : semanticAnalyze .init program = .ok (program', cg)) (n : ℕ)
    {fn : Option CgCallee} {scope : List CgVar} {classes : List CgClass} {name : Ident}
    {op : Option Char} {target : Location}
    (hevent : .variableAssigned fn scope classes name op target ∈
      ((buildModule n program').final cg).trace) :
    (readLocation fn scope classes name = some target ↔ InPlace fn scope classes name op) ∧
      ∀ c target', op = none → AssignsTo (.at scope classes) fn name (some c) target' →
        (target = target' ↔ InPlace fn scope classes name op) := by
  have hassigns := buildModule_assigns haccepted n _ hevent
  refine ⟨AssignsTo.agrees_iff hassigns, ?_⟩
  rintro c target' rfl hcompound
  exact AssignsTo.same_target_iff hassigns hcompound

/-- A function that assigns a global variable. -/
def globalAssigned : ASTStmtList :=
  [.varDecl "x".toList .typeInt (some .int) (.int 1) false,
    .funcDecl ⟨"f".toList, [], .typeNil, some .nil,
      some [.varAssign "x".toList (.int 2) none]⟩]

/-- The program is accepted.  The assignment stores into a new slot, a read at
that point loads from the global variable. -/
theorem globalAssigned_disagrees :
    ∃ program' cg, semanticAnalyze .init globalAssigned = .ok (program', cg) ∧
      ∀ n, .variableAssigned (some ⟨[], true, none⟩) [] [] "x".toList none
          (.slot (.alloca 0)) ∈ ((buildModule (n + 3) program').final cg).trace ∧
        readLocation (some ⟨[], true, none⟩) [] [] "x".toList =
          some (.global "x".toList) :=
  ⟨_, _, rfl, fun _ => ⟨List.Mem.head _, rfl⟩⟩

/-- A program that assigns its variable at top level. -/
def topLevelAssigned : ASTStmtList :=
  [.varDecl "x".toList .typeInt (some .int) (.int 1) false, .varAssign "x".toList (.int 2) none]

theorem topLevelAssigned_agrees :
    ∃ program' cg, semanticAnalyze .init topLevelAssigned = .ok (program', cg) ∧
      .variableAssigned none [] [] "x".toList none (.global "x".toList) ∈
        ((buildModule 3 program').final cg).trace ∧
      readLocation none [] [] "x".toList = some (.global "x".toList) :=
  ⟨_, _, rfl, List.Mem.head _,
    ((@assignment_agrees_iff topLevelAssigned _ _ rfl 3 none [] [] "x".toList none
      (.global "x".toList) (List.Mem.head _)).1).mpr (.inl rfl)⟩

end BreadLang
