import BreadLang.Library.Run
import BreadLang.Runtime.AssignedObjects
import BreadLang.Runtime.Memory
import BreadLang.Runtime.ReferencesConserved

/-!
# Shutting down

The state that a program leaves behind: objects, the table of interned strings, variables
in open scopes and registered functions.  Three sequences of calls take it down, and each
returns the chunks of the pool before it releases the variables.

`teardown_live_iff` says in which of the states that can be reached these sequences get to
no storage that has been returned.
-/

namespace BreadLang

open RefCount

/-! ### The state -/

/-- The runtime at a point of a program.  A variable is known by the place of its scope and
its place in it; `functions` are the default values of the parameters of each registered
function. -/
structure RuntimeState where
  objects : ObjectState
  scopes : List (List HeapVariable)
  functions : List (List HeapValue)

/-- A call that changes the state. -/
inductive RuntimeOp where
  | onObjects (op : ObjectOp)
  | pushScope
  | popScope
  | declareVariable (type : VarType)
  | assignVariable (scope index : ℕ) (value : HeapValue)
  | loadVariable (scope index : ℕ)
  | registerFunction (defaults : List HeapValue)

/-- The value that a declaration without an initial value gives a variable. -/
def VarType.zeroValue (h : ObjectHeap) : VarType → HeapValue × ObjectHeap
  | .typeString =>
      let (r, h) := h.stringNew []
      (.string (some r), h)
  | .typeInt => (.int 0, h)
  | .typeBool => (.bool false, h)
  | .typeFloat => (.float ⟨0⟩, h)
  | .typeDouble => (.double ⟨0⟩, h)
  | .typeArray => (.array none, h)
  | .typeDict => (.dict none, h)
  | .typeOptional => (.optional none, h)
  | .typeStruct => (.struct none, h)
  | .typeClass => (.class none, h)
  | .typeNil => (.nil, h)

/-- `release_variable` on one variable after another. -/
def ObjectHeap.releaseVariables (h : ObjectHeap) (vars : List HeapVariable) : Exec ObjectHeap :=
  vars.foldlM (fun h v => h.valueRelease v.value) h

/-- `bread_value_clone` on one value after another. -/
def ObjectHeap.cloneValues (h : ObjectHeap) (vs : List HeapValue) : Exec ObjectHeap :=
  vs.foldlM ObjectHeap.valueClone h

namespace RuntimeState

/-- The state after `initialize_runtime`. -/
def init (definitions : List ClassDefinition) : RuntimeState where
  objects := .init definitions
  scopes := [[]]
  functions := []

/-- The objects. -/
def heap (s : RuntimeState) : ObjectHeap :=
  s.objects.heap

/-- The state with other objects. -/
def withHeap (s : RuntimeState) (h : ObjectHeap) : RuntimeState :=
  { s with objects := { s.objects with heap := h } }

/-- The variable at a place. -/
def variableAt (s : RuntimeState) (scope index : ℕ) : Option HeapVariable :=
  s.scopes[scope]?.bind fun vars => vars[index]?

/-- The state with another variable at a place. -/
def setVariableAt (s : RuntimeState) (scope index : ℕ) (v : HeapVariable) : RuntimeState :=
  match s.scopes[scope]? with
  | some vars => { s with scopes := s.scopes.set scope (vars.set index v) }
  | none => s

/-- One call, with the values that it gives to the caller.  An assignment to a variable
that is not there is an error that is reported. -/
def step (c : FloatConversions) (s : RuntimeState) :
    RuntimeOp → Exec (RuntimeState × List HeapValue)
  | .onObjects op => do
      let (objects, new) ← s.objects.step op
      return ({ s with objects := objects }, new)
  | .pushScope =>
      if maxScopes ≤ s.scopes.length then runtimeAbort "Scope stack overflow"
      else .ok ({ s with scopes := [] :: s.scopes }, [])
  | .popScope =>
      match s.scopes with
      | scope :: next :: rest => do
          let h ← s.heap.releaseVariables scope
          return ({ s.withHeap h with scopes := next :: rest }, [])
      | _ => runtimeAbort "Cannot pop global scope"
  | .declareVariable type =>
      match s.scopes with
      | [] => runtimeAbort "Variable system not initialized"
      | scope :: rest =>
          if maxVars ≤ scope.length then runtimeAbort "Too many variables in scope"
          else
            let (value, h) := type.zeroValue s.heap
            .ok ({ s.withHeap h with scopes := (scope ++ [⟨type, value⟩]) :: rest }, [])
  | .assignVariable scope index value =>
      match s.variableAt scope index with
      | none => .ok (s, [])
      | some v => do
          let out ← s.heap.coerceAndAssign c v value
          return ((s.withHeap out.heap).setVariableAt scope index out.target, [])
  | .loadVariable scope index =>
      match s.variableAt scope index with
      | none => .ok (s, [])
      | some v => do
          let h ← s.heap.valueClone v.value
          let s := s.withHeap h
          return ({ s with objects := { s.objects with held := v.value :: s.objects.held } },
            [v.value])
  | .registerFunction defaults => do
      let h ← s.heap.cloneValues defaults
      return ({ s.withHeap h with functions := s.functions ++ [defaults] }, [])

/-- A caller releases what it holds. -/
def Releases (s : RuntimeState) : RuntimeOp → Prop
  | .onObjects op => s.objects.Releases op
  | _ => True

end RuntimeState

/-! ### The sequences -/

/-- The size that `bread_memory_alloc` is called with, on a machine with pointers of eight
bytes. -/
def ObjectBody.allocSize : ObjectBody → ℕ
  | .string data => 24 + data.length + 1
  | .array _ => 32
  | .dict _ => 32
  | .optional _ => 32
  | .struct _ => 40
  | .instance _ => 104

/-- The object has a block of the pool. -/
def ObjectHeap.pooled (h : ObjectHeap) (r : Ref) : Bool :=
  match h.body r with
  | some b => b.allocSize ≤ poolBlockSize
  | none => false

namespace RuntimeState

/-- `bread_memory_cleanup`.  It frees the chunks of the pool; the other objects are left as
they are. -/
def memoryCleanup (s : RuntimeState) : RuntimeState :=
  s.withHeap (s.heap.withdraw s.heap.pooled)

/-- `bread_string_intern_cleanup`. -/
def stringInternCleanup (s : RuntimeState) : Exec RuntimeState := do
  return { s with objects := ← s.objects.stringInternCleanup }

/-- `cleanup_functions`, which releases the default values. -/
def cleanupFunctions (s : RuntimeState) : Exec RuntimeState := do
  let h ← s.functions.foldlM (fun h defaults => defaults.foldlM ObjectHeap.valueRelease h) s.heap
  return { s.withHeap h with functions := [] }

/-- `cleanup_variables`, from the innermost scope on. -/
def cleanupVariables (s : RuntimeState) : Exec RuntimeState := do
  let h ← s.scopes.foldlM ObjectHeap.releaseVariables s.heap
  return { s.withHeap h with scopes := [] }

/-- `cleanup_runtime` of `main.c`.  What it cleans up before is no object. -/
def cleanupRuntime (s : RuntimeState) : Exec RuntimeState := do
  let s ← s.stringInternCleanup
  let s := s.memoryCleanup
  let s ← s.cleanupFunctions
  s.cleanupVariables

/-- The calls of `emit_runtime_cleanup_calls`. -/
def emittedCleanup (s : RuntimeState) : Exec RuntimeState := do
  let s ← s.stringInternCleanup
  let s := s.memoryCleanup
  let s ← s.cleanupFunctions
  s.cleanupVariables

/-- `bread_memory_cleanup_all`. -/
def memoryCleanupAll (s : RuntimeState) : Exec RuntimeState :=
  s.memoryCleanup.stringInternCleanup

/-- `bread_memory_cleanup_all`, followed by `cleanup_variables`. -/
def cleanupAllThenVariables (s : RuntimeState) : Exec RuntimeState := do
  let s ← s.memoryCleanupAll
  s.cleanupVariables

/-- **Each of the sequences** gets to no storage that has been returned. -/
structure TeardownLive (s : RuntimeState) : Prop where
  runtime : ∃ s', s.cleanupRuntime = .ok s'
  emitted : ∃ s', s.emittedCleanup = .ok s'
  all : ∃ s', s.cleanupAllThenVariables = .ok s'

end RuntimeState

/-! ### When they do -/

namespace ObjectHeap

/-- The references to an object that neither objects hold nor a list has. -/
def others (h : ObjectHeap) (rs : List Ref) (r : Ref) : ℕ :=
  h.count r - h.incoming ObjectBody.children r - rs.count r

/-- **What a release gets to**: the objects of the references that are released, and those
that an object refers to that nothing else holds. -/
def Reached (h : ObjectHeap) (rs : List Ref) (r : Ref) : Prop :=
  r ∈ rs ∨ ∃ x b, h.body x = some b ∧ r ∈ b.children ∧
    ¬ h.Held ObjectBody.children (h.others rs) x

/-- Among objects without children, only those of the references themselves. -/
theorem Reached.mem_of_childless {h : ObjectHeap} {rs : List Ref} {r : Ref} (hr : h.Reached rs r)
    (hb : ∀ x b, h.body x = some b → b.children = []) : r ∈ rs := by
  obtain hr | ⟨x, b, hbody, hr, -⟩ := hr
  · exact hr
  · rw [hb x b hbody] at hr
    exact absurd hr List.not_mem_nil

end ObjectHeap

namespace RuntimeState

/-- The references of the variables of a scope. -/
def scopeRefs (vars : List HeapVariable) : List Ref :=
  vars.flatMap fun v => v.value.refs

/-- The references of variables. -/
def variableRefs (s : RuntimeState) : List Ref :=
  s.scopes.flatMap scopeRefs

/-- The references of default values. -/
def functionRefs (s : RuntimeState) : List Ref :=
  s.functions.flatMap valueRefs

/-- **No object that the releases get to has a block of the pool.** -/
structure TeardownReady (s : RuntimeState) : Prop where
  stored : ∀ r, s.heap.Reached (s.functionRefs ++ s.variableRefs) r → s.heap.pooled r = false
  interned : ∀ r, s.heap.Reached (s.objects.internedRefs ++ s.variableRefs) r →
    s.heap.pooled r = false

end RuntimeState

/-! ### Variables keep the counts -/

section Variables

variable {S : Set Ref} {h : ObjectHeap} {owed : List Ref} {c : FloatConversions}
  {kind type : VarType} {old new source : HeapValue}

theorem releaseAs_spec {r : Option Ref} (owed : List Ref) (hb : Balanced S h (r.toList ++ owed)) :
    Gives (h.releaseAs kind r) fun h' => Balanced S h' owed := by
  cases r with
  | none => exact gives_ok hb
  | some r =>
      have hrelease := (releaseRefs_spec [r] owed hb).mono fun h' (hr : Released S h owed h') => hr.1
      unfold ObjectHeap.releaseAs
      dsimp only
      split
      · split
        · exact gives_error
        · exact hrelease
      · exact hrelease

theorem replaceObject_spec (hb : Balanced S h (old.refs ++ owed)) :
    Gives (h.replaceObject kind old.ref? new) fun h' => Balanced S h' (new.refs ++ owed) :=
  gives_bind (releaseAs_spec owed hb) fun _ hb' =>
    (valueClone_spec hb').mono fun _ h => h.1

theorem replaceString_spec (new : HeapValue) (hb : Balanced S h (old.refs ++ owed)) :
    Gives (h.replaceString old.ref? new.ref?) fun result =>
      Balanced S result.2 (result.1 :: owed) := by
  unfold ObjectHeap.replaceString
  cases new.ref? with
  | some s =>
      refine gives_bind (objectRetain_spec hb) fun h₁ hretained => ?_
      refine gives_bind (releaseAs_spec (s :: owed) (hretained.1.congr fun x => ?_))
        fun h₂ hb₂ => gives_pure hb₂
      simp only [List.count_append, List.count_cons, HeapValue.refs]
      omega
  | none =>
      have hnew : Balanced S (h.stringNew []).2 ((h.stringNew []).1 :: (old.refs ++ owed)) :=
        create_spec hb
      refine gives_bind (releaseAs_spec ((h.stringNew []).1 :: owed) (hnew.congr fun x => ?_))
        fun h₂ hb₂ => gives_pure hb₂
      simp only [List.count_append, List.count_cons, HeapValue.refs]
      omega

/-- What is to be stored, and how its type comes from that of the variable. -/
structure CoercedFrom (S : Set Ref) (owed : List Ref) (type : VarType)
    (new : ObjectHeap.Coerced) : Prop where
  balanced : Balanced S new.heap (new.newOptional.toList ++ owed)
  tag : new.value.type = new.type
  plain : new.type.isPlain = true → type.isPlain = true
  nil : new.type = .typeNil → type = .typeNil

theorem coerce_spec (hb : Balanced S h owed) : Gives (h.coerce c type source) fun new =>
    ∀ n, new = some n → CoercedFrom S owed type n := by
  unfold ObjectHeap.coerce
  split
  · rename_i hnil
    rintro _ ⟨⟩ _ ⟨⟩
    exact ⟨hb, rfl, fun _ => by rw [hnil]; rfl, fun _ => hnil⟩
  split
  · rename_i hsame
    rintro _ ⟨⟩ _ ⟨⟩
    exact ⟨hb, hsame.symm, id, id⟩
  have houtcome := tryNumericCoercion_outcome c type source
  revert houtcome
  generalize c.tryNumericCoercion type source = u
  intro houtcome
  cases houtcome with
  | number htype hplain hdenotes hfits =>
      rintro _ ⟨⟩ _ ⟨⟩
      exact ⟨hb, htype, id, id⟩
  | undefined hfits => exact gives_error
  | other hfits =>
      have hoptional : Gives (h.tryOptionalCoercion type source) fun result =>
          ∀ r h', result = some (r, h') → type = .typeOptional ∧ Balanced S h' (r :: owed) := by
        unfold ObjectHeap.tryOptionalCoercion
        split
        · rintro _ ⟨⟩ _ _ ⟨⟩
        rename_i htype
        split
        · rintro _ ⟨⟩ _ _ ⟨⟩
          exact ⟨Classical.not_not.mp htype, create_spec hb⟩
        split
        · refine gives_map ((optionalNewSome_spec hb source).mono ?_)
          rintro _ hb' _ _ ⟨⟩
          exact ⟨Classical.not_not.mp htype, hb'⟩
        · rintro _ ⟨⟩ _ _ ⟨⟩
      show Gives (h.tryOptionalCoercion type source >>= _) _
      refine gives_bind hoptional fun result hresult => ?_
      cases result with
      | some pair =>
          obtain ⟨rfl, hb'⟩ := hresult pair.1 pair.2 rfl
          rintro _ ⟨⟩ _ ⟨⟩
          exact ⟨hb', rfl, fun h => (nomatch h), fun h => nomatch h⟩
      | none =>
          dsimp only
          split
          · rename_i hclass
            rintro _ ⟨⟩ _ ⟨⟩
            exact ⟨hb, hclass.2, fun h => (nomatch h), fun h => nomatch h⟩
          · rintro _ ⟨⟩ _ ⟨⟩

/-- The variable holds what has been stored in it. -/
def StoredIn (S : Set Ref) (owed : List Ref) (out : ObjectHeap.Assignment) : Prop :=
  Balanced S out.heap (out.target.value.refs ++ owed) ∧ out.target.value.type = out.target.type

theorem store_spec {owed' : List Ref} {new : ObjectHeap.Coerced} (owed : List Ref)
    (hb : Balanced S new.heap (old.refs ++ owed))
    (hnew : CoercedFrom S owed' old.type new) : Gives (new.store old) (StoredIn S owed) := by
  obtain ⟨type, value, heap, o⟩ := new
  obtain ⟨-, htag, hplain, hnil⟩ := hnew
  dsimp only at hb htag hplain hnil
  subst htag
  have hcopied : value.type.isPlain = true →
      StoredIn S owed ⟨true, ⟨value.type, value⟩, heap, none⟩ := by
    intro hp
    have hold := HeapValue.ref?_of_isPlain (hplain hp)
    have hvalue := HeapValue.ref?_of_isPlain hp
    refine ⟨?_, rfl⟩
    rw [HeapValue.refs, hold] at hb
    rw [HeapValue.refs, hvalue]
    exact hb
  have hobject : Gives
      (do
        let h ← heap.replaceObject value.type old.ref? value
        return (⟨true, ⟨value.type, value⟩, h, old.ref?.map fun _ => value.type⟩ :
          ObjectHeap.Assignment))
      (StoredIn S owed) :=
    gives_bind (replaceObject_spec hb) fun h' hb' => gives_pure ⟨hb', rfl⟩
  cases value with
  | nil => exact gives_ok ⟨hb, hnil rfl⟩
  | int n => exact gives_ok (hcopied rfl)
  | bool b => exact gives_ok (hcopied rfl)
  | float f => exact gives_ok (hcopied rfl)
  | double d => exact gives_ok (hcopied rfl)
  | string r =>
      exact gives_bind (replaceString_spec (.string r) hb) fun result hb' =>
        gives_pure ⟨hb', rfl⟩
  | array r => exact hobject
  | dict r => exact hobject
  | optional r => exact hobject
  | struct r => exact hobject
  | «class» r => exact hobject

/-- **An assignment** hands the reference of the old value back and takes one to the new
one, whatever becomes of them. -/
theorem coerceAndAssign_spec {target : HeapVariable} (owed : List Ref)
    (hb : Balanced S h (target.value.refs ++ owed)) (htag : target.value.type = target.type) :
    Gives (h.coerceAndAssign c target source) (StoredIn S owed) := by
  refine gives_bind (coerce_spec hb) fun new hnew => ?_
  cases new with
  | none => exact gives_pure ⟨hb, htag⟩
  | some new =>
      have hfrom := hnew new rfl
      rw [← htag] at hfrom
      refine gives_bind (store_spec (new.newOptional.toList ++ owed)
        (hfrom.balanced.congr fun x => ?_) hfrom) ?_
      · simp only [List.count_append]
        omega
      rintro out ⟨hb', htag'⟩
      refine gives_bind (releaseAs_spec (out.target.value.refs ++ owed)
        (hb'.congr fun x => ?_)) fun h' hb'' => gives_pure ⟨hb'', htag'⟩
      simp only [List.count_append]
      omega

end Variables

/-! ### Runs -/

section Lists

variable {S : Set Ref} {h : ObjectHeap} {owed : List Ref}

/-- One release after another is a release of all the references. -/
theorem releaseRefs_append (a b : List Ref) :
    h.releaseRefs (a ++ b) = h.releaseRefs a >>= fun h => h.releaseRefs b := by
  rw [ObjectHeap.releaseRefs, List.map_append, drain_append, ObjectHeap.releaseRefs]
  cases drain ObjectBody.children h (a.map Task.release) <;> rfl

/-- A loop that releases the references of each element. -/
theorem foldlM_releaseRefs {α : Type} (refs : α → List Ref) (l : List α)
    (f : ObjectHeap → α → Exec ObjectHeap) (hf : ∀ h a, f h a = h.releaseRefs (refs a)) :
    l.foldlM f h = h.releaseRefs (l.flatMap refs) := by
  induction l generalizing h with
  | nil => exact (releaseRefs_nil h).symm
  | cons a l ih =>
      rw [List.foldlM_cons, hf, List.flatMap_cons, releaseRefs_append]
      exact bind_congr fun h => ih

theorem releaseVariables_eq (vars : List HeapVariable) :
    h.releaseVariables vars = h.releaseRefs (RuntimeState.scopeRefs vars) :=
  foldlM_releaseRefs (fun v : HeapVariable => v.value.refs) vars _ fun _ _ => rfl

theorem cloneValues_spec (vs : List HeapValue) (hb : Balanced S h owed) :
    Gives (h.cloneValues vs) fun h' => Balanced S h' (valueRefs vs ++ owed) := by
  induction vs generalizing h owed with
  | nil => exact gives_ok hb
  | cons v vs ih =>
      rw [ObjectHeap.cloneValues, List.foldlM_cons]
      refine gives_bind (valueClone_spec hb) fun h₁ hretained => ?_
      refine (ih hretained.1).mono fun h₂ hb₂ => hb₂.congr fun x => ?_
      simp only [valueRefs_cons, List.count_append]
      omega

theorem zeroValue_spec (hb : Balanced S h owed) (type : VarType) :
    Balanced S (type.zeroValue h).2 ((type.zeroValue h).1.refs ++ owed) ∧
      (type.zeroValue h).1.type = type := by
  cases type with
  | typeString => exact ⟨create_spec hb, rfl⟩
  | _ => exact ⟨hb, rfl⟩

end Lists

namespace RuntimeState

variable {s : RuntimeState} {lost : List Ref} {c : FloatConversions}

/-- **Every count is accounted for**, and every variable has a value of its type. -/
structure Accounted (s : RuntimeState) (lost : List Ref) : Prop where
  objects : s.objects.Accounted (s.functionRefs ++ (s.variableRefs ++ lost))
  tags : ∀ vars ∈ s.scopes, ∀ v ∈ vars, v.value.type = v.type

/-- The references that strings of the table have nothing to do with. -/
theorem Accounted.balanced (hs : s.Accounted lost) :
    Balanced {x | x ∈ s.objects.internedRefs} s.heap (valueRefs s.objects.held ++
      (s.functionRefs ++ (s.variableRefs ++ lost) ++ s.objects.internedRefs)) :=
  hs.objects.balanced

theorem accounted_init (definitions : List ClassDefinition) : (init definitions).Accounted [] :=
  ⟨ObjectState.accounted_init definitions, by simp [init]⟩

theorem tag_of_variableAt (hs : s.Accounted lost) {i j : ℕ} {v : HeapVariable}
    (hv : s.variableAt i j = some v) : v.value.type = v.type := by
  obtain ⟨vars, hvars, hj⟩ := Option.bind_eq_some_iff.mp hv
  exact hs.tags vars (List.mem_of_getElem? hvars) v (List.mem_of_getElem? hj)

/-- Another variable at a place exchanges the references of the two. -/
theorem count_setVariableAt {i j : ℕ} {v : HeapVariable} (hv : s.variableAt i j = some v)
    (w : HeapVariable) (x : Ref) :
    (s.setVariableAt i j w).variableRefs.count x + v.value.refs.count x =
      s.variableRefs.count x + w.value.refs.count x := by
  obtain ⟨vars, hvars, hj⟩ := Option.bind_eq_some_iff.mp hv
  rw [setVariableAt, hvars]
  have houter := count_flatMap_set (f := scopeRefs) (b := vars.set j w) (x := x) hvars
  have hinner := count_flatMap_set (f := fun v : HeapVariable => v.value.refs) (b := w) (x := x) hj
  simp only [variableRefs, scopeRefs] at houter hinner ⊢
  omega

theorem count_scopeRefs_append (vars : List HeapVariable) (w : HeapVariable) (x : Ref) :
    (scopeRefs (vars ++ [w])).count x = (scopeRefs vars).count x + w.value.refs.count x := by
  rw [scopeRefs, List.flatMap_append, List.count_append, List.flatMap_singleton]
  rfl

theorem setVariableAt_frame (s : RuntimeState) (i j : ℕ) (w : HeapVariable) :
    (s.setVariableAt i j w).objects = s.objects ∧
      (s.setVariableAt i j w).functions = s.functions := by
  rw [setVariableAt]
  split <;> exact ⟨rfl, rfl⟩

theorem setVariableAt_withHeap (s : RuntimeState) (h : ObjectHeap) (i j : ℕ) (w : HeapVariable) :
    ((s.withHeap h).setVariableAt i j w).variableRefs = (s.setVariableAt i j w).variableRefs := by
  simp only [setVariableAt, withHeap]
  split <;> rfl

theorem tags_setVariableAt (hs : ∀ vars ∈ s.scopes, ∀ v ∈ vars, v.value.type = v.type) {i j : ℕ}
    {w : HeapVariable} (hw : w.value.type = w.type) :
    ∀ vars ∈ (s.setVariableAt i j w).scopes, ∀ v ∈ vars, v.value.type = v.type := by
  rw [setVariableAt]
  split
  · rename_i old hold
    intro vars hvars v hv
    rcases List.mem_or_eq_of_mem_set hvars with hvars | rfl
    · exact hs vars hvars v hv
    · rcases List.mem_or_eq_of_mem_set hv with hv | rfl
      · exact hs old (List.mem_of_getElem? hold) v hv
      · exact hw
  · exact hs

/-- The counts are accounted for when the heap is in balance with what the parts of the
state hold. -/
theorem Accounted.of_balanced {t : RuntimeState} {owed : List Ref} (held functions vars : List Ref)
    (hs : s.Accounted lost) (hb : Balanced {x | x ∈ s.objects.internedRefs} t.heap owed)
    (hinterned : t.objects.interned = s.objects.interned)
    (hheld : valueRefs t.objects.held = held) (hfunctions : t.functionRefs = functions)
    (hvars : t.variableRefs = vars)
    (howed : ∀ x, held.count x + functions.count x + vars.count x + lost.count x +
      s.objects.internedRefs.count x = owed.count x)
    (htags : ∀ vars ∈ t.scopes, ∀ v ∈ vars, v.value.type = v.type) : t.Accounted lost := by
  have hrefs : t.objects.internedRefs = s.objects.internedRefs := by
    rw [ObjectState.internedRefs, hinterned]
    rfl
  refine ⟨⟨?_, (congrArg List.length hinterned).trans hs.objects.buckets⟩, htags⟩
  rw [hrefs, hheld, hfunctions, hvars]
  refine hb.congr fun x => ?_
  rw [← howed x]
  simp only [List.count_append]
  omega

/-- A call for the objects. -/
theorem onObjects_accounted (hs : s.Accounted lost) (op : ObjectOp)
    (hreleases : s.objects.Releases op) :
    Gives (s.step c (.onObjects op)) fun result => ∃ lost', result.1.Accounted lost' := by
  refine gives_bind (ObjectState.step_spec hs.objects op hreleases) ?_
  rintro ⟨objects, new⟩ ⟨lost', hobjects, -⟩
  refine gives_pure ⟨lost' ++ lost, ⟨?_, hobjects.buckets⟩, hs.tags⟩
  refine hobjects.balanced.congr fun x => ?_
  simp only [List.count_append, functionRefs, variableRefs]
  omega

/-- The variables of a scope are released. -/
theorem popScope_accounted (hs : s.Accounted lost) :
    Gives (s.step c .popScope) fun result => ∃ lost', result.1.Accounted lost' := by
  rw [step]
  split
  · rename_i scope next rest hscopes
    have hvars : s.variableRefs = scopeRefs scope ++ (next :: rest).flatMap scopeRefs := by
      rw [variableRefs, hscopes, List.flatMap_cons]
    rw [releaseVariables_eq]
    refine gives_bind (releaseRefs_spec _ (valueRefs s.objects.held ++ (s.functionRefs ++
      ((next :: rest).flatMap scopeRefs ++ lost) ++ s.objects.internedRefs))
      (hs.balanced.congr fun x => ?_)) ?_
    · rw [hvars]
      simp only [List.count_append]
      omega
    rintro h ⟨hb, -⟩
    refine gives_pure ⟨lost, hs.of_balanced (valueRefs s.objects.held) s.functionRefs
      ((next :: rest).flatMap scopeRefs) hb rfl rfl rfl rfl (fun x => ?_) fun vars hvars => ?_⟩
    · simp only [List.count_append]
      omega
    · exact hs.tags vars (hscopes ▸ List.mem_cons_of_mem _ hvars)
  · exact gives_error

/-- A new variable takes the reference of its value. -/
theorem declareVariable_accounted (hs : s.Accounted lost) (type : VarType) :
    Gives (s.step c (.declareVariable type)) fun result =>
      ∃ lost', result.1.Accounted lost' := by
  rw [step]
  split
  · exact gives_error
  rename_i scope rest hscopes
  split
  · exact gives_error
  obtain ⟨hb, htag⟩ := zeroValue_spec hs.balanced type
  revert hb htag
  generalize type.zeroValue s.heap = result
  obtain ⟨value, h⟩ := result
  intro hb htag
  have hvars : s.variableRefs = scopeRefs scope ++ rest.flatMap scopeRefs := by
    rw [variableRefs, hscopes, List.flatMap_cons]
  refine gives_ok ⟨lost, hs.of_balanced (valueRefs s.objects.held) s.functionRefs
    (scopeRefs (scope ++ [⟨type, value⟩]) ++ rest.flatMap scopeRefs) hb rfl rfl rfl rfl
    (fun x => ?_) ?_⟩
  · have hnew := count_scopeRefs_append scope ⟨type, value⟩ x
    rw [hvars]
    simp only [List.count_append] at hnew ⊢
    omega
  · have htags := hs.tags
    rw [hscopes] at htags
    obtain ⟨hscope, hrest⟩ := List.forall_mem_cons.mp htags
    refine List.forall_mem_cons.mpr ⟨fun v hv => ?_, hrest⟩
    rcases List.mem_append.mp hv with hv | hv
    · exact hscope v hv
    · rw [List.mem_singleton.mp hv]
      exact htag

/-- An assignment exchanges the references of two values. -/
theorem assignVariable_accounted (hs : s.Accounted lost) (i j : ℕ) (value : HeapValue) :
    Gives (s.step c (.assignVariable i j value)) fun result =>
      ∃ lost', result.1.Accounted lost' := by
  rw [step]
  split
  · exact gives_ok ⟨lost, hs⟩
  rename_i v hv
  -- what everybody but this variable is owed
  set without : List Ref := (s.setVariableAt i j ⟨.typeNil, .nil⟩).variableRefs with hwithout
  have hcount := fun w x => count_setVariableAt hv w x
  refine gives_bind (coerceAndAssign_spec (valueRefs s.objects.held ++ (s.functionRefs ++
    (without ++ lost) ++ s.objects.internedRefs)) (hs.balanced.congr fun x => ?_)
    (tag_of_variableAt hs hv)) ?_
  · have hx := hcount ⟨.typeNil, .nil⟩ x
    simp only [refs_nil, List.count_nil] at hx
    simp only [hwithout, List.count_append]
    omega
  rintro out ⟨hb, htag⟩
  obtain ⟨hobjects, hfunctions⟩ := setVariableAt_frame (s.withHeap out.heap) i j out.target
  have hheap : ((s.withHeap out.heap).setVariableAt i j out.target).heap = out.heap := by
    rw [heap, hobjects]
    rfl
  refine gives_pure ⟨lost, hs.of_balanced (valueRefs s.objects.held) s.functionRefs
    (s.setVariableAt i j out.target).variableRefs (hheap.symm ▸ hb) (by rw [hobjects]; rfl)
    (by rw [hobjects]; rfl) (by rw [functionRefs, hfunctions]; rfl)
    (setVariableAt_withHeap s out.heap i j _) (fun x => ?_)
    (tags_setVariableAt (s := s.withHeap out.heap) hs.tags htag)⟩
  have hx := hcount ⟨.typeNil, .nil⟩ x
  have hx' := hcount out.target x
  simp only [refs_nil, List.count_nil] at hx
  simp only [hwithout, List.count_append]
  omega

/-- A load gives the caller a reference. -/
theorem loadVariable_accounted (hs : s.Accounted lost) (i j : ℕ) :
    Gives (s.step c (.loadVariable i j)) fun result => ∃ lost', result.1.Accounted lost' := by
  rw [step]
  split
  · exact gives_ok ⟨lost, hs⟩
  rename_i v hv
  refine gives_bind (valueClone_spec hs.balanced) fun h hretained => ?_
  refine gives_pure ⟨lost, hs.of_balanced (v.value.refs ++ valueRefs s.objects.held) s.functionRefs
    s.variableRefs hretained.1 rfl (valueRefs_cons _ _) rfl rfl (fun x => ?_) hs.tags⟩
  simp only [List.count_append]
  omega

/-- The default values of a function are retained. -/
theorem registerFunction_accounted (hs : s.Accounted lost) (defaults : List HeapValue) :
    Gives (s.step c (.registerFunction defaults)) fun result =>
      ∃ lost', result.1.Accounted lost' := by
  refine gives_bind (cloneValues_spec defaults hs.balanced) fun h hb => ?_
  have hfunctions : (s.functions ++ [defaults]).flatMap valueRefs =
      s.functionRefs ++ valueRefs defaults := by
    rw [List.flatMap_append, List.flatMap_singleton]
    rfl
  refine gives_pure ⟨lost, hs.of_balanced (valueRefs s.objects.held)
    (s.functionRefs ++ valueRefs defaults) s.variableRefs hb rfl rfl hfunctions rfl
    (fun x => ?_) hs.tags⟩
  simp only [List.count_append]
  omega

/-- **One call** keeps every count accounted for. -/
theorem step_accounted (hs : s.Accounted lost) (op : RuntimeOp) (hreleases : s.Releases op) :
    Gives (s.step c op) fun result => ∃ lost', result.1.Accounted lost' := by
  cases op with
  | onObjects op => exact onObjects_accounted hs op hreleases
  | pushScope =>
      rw [step]
      split
      · exact gives_error
      · refine gives_ok ⟨lost, hs.objects, ?_⟩
        exact List.forall_mem_cons.mpr ⟨fun v hv => absurd hv List.not_mem_nil, hs.tags⟩
  | popScope => exact popScope_accounted hs
  | declareVariable type => exact declareVariable_accounted hs type
  | assignVariable i j value => exact assignVariable_accounted hs i j value
  | loadVariable i j => exact loadVariable_accounted hs i j
  | registerFunction defaults => exact registerFunction_accounted hs defaults

/-- The state after a run. -/
theorem run_accounted {definitions : List ClassDefinition} {ops : List RuntimeOp}
    {rs : List (List HeapValue)} (hrun : Run.run (step c) (init definitions) ops = .ok (s, rs))
    (hreleases : Run.Guarded (step c) Releases (init definitions) ops) :
    ∃ lost, s.Accounted lost := by
  refine Run.run_preserves (fun s => ∃ lost, s.Accounted lost) ops ?_ _ _ _
    ⟨[], accounted_init definitions⟩ hreleases hrun
  rintro s op ⟨lost, hs⟩ hnow s' r hstep
  exact step_accounted hs op hnow _ hstep

end RuntimeState

/-! ### Releases after the pool is gone -/

section Releases

variable {S : Set Ref} {h h₁ : ObjectHeap} {owed rs : List Ref}

theorem others_eq (hb : Balanced S h (rs ++ owed)) : h.others rs = fun x => owed.count x := by
  funext x
  have hcounted := hb.ledger.counted x
  rw [List.count_append] at hcounted
  unfold ObjectHeap.others
  omega

/-- A release on a heap some of whose storage has been returned. -/
theorem releaseRefs_withdraw_iff (hb : Balanced S h (rs ++ owed)) (p : Ref → Bool) :
    (∃ h', ObjectHeap.releaseRefs (h.withdraw p) rs = .ok h') ↔
      (∀ r ∈ rs, p r = false) ∧ ∀ x b, h.body x = some b →
        ¬ h.Held ObjectBody.children (fun x => owed.count x) x → ∀ y ∈ b.children, p y = false := by
  obtain ⟨h', hrun, -⟩ := hb.due.drain
  have hiff := hb.due.drain_withdraw p hrun
  rw [releases_map] at hiff
  have hsome : (∃ h', ObjectHeap.releaseRefs (h.withdraw p) rs = .ok h') ↔
      (drain ObjectBody.children (h.withdraw p) (rs.map Task.release)).isSome = true := by
    rw [ObjectHeap.releaseRefs]
    cases drain ObjectBody.children (h.withdraw p) (rs.map Task.release) <;> simp
  rw [hsome, hiff]
  simp only [hb.due.body_eq_none_iff hrun]

/-- The objects that have to be big enough not to have a block of the pool. -/
theorem releaseRefs_pooled_iff (hb : Balanced S h (rs ++ owed)) :
    (∃ h', ObjectHeap.releaseRefs (h.withdraw h.pooled) rs = .ok h') ↔
      ∀ r, h.Reached rs r → h.pooled r = false := by
  rw [releaseRefs_withdraw_iff hb, ← others_eq hb]
  constructor
  · rintro ⟨hroots, hinner⟩ r (hr | ⟨x, b, hbody, hr, hheld⟩)
    · exact hroots r hr
    · exact hinner x b hbody hheld r hr
  · intro hall
    exact ⟨fun r hr => hall r (.inl hr), fun x b hbody hheld y hy =>
      hall y (.inr ⟨x, b, hbody, hy, hheld⟩)⟩

theorem not_isString_of_children {b : ObjectBody} {r : Ref} (hr : r ∈ b.children) :
    ¬ b.IsString := by
  cases b with
  | string data => cases hr
  | _ => exact id

/-- Objects that are not strings are held without the references to strings. -/
theorem held_without_strings {strs : List Ref} (hb : Balanced S h (strs ++ owed))
    (hstrs : ∀ r ∈ strs, r ∈ S) {x : Ref} {b : ObjectBody} (hbody : h.body x = some b)
    (hkind : ¬ b.IsString) : h.Held ObjectBody.children (fun x => owed.count x) x := by
  refine ⟨{y | ∃ b, h.body y = some b ∧ ¬ b.IsString}, ⟨b, hbody, hkind⟩, ?_⟩
  rintro y ⟨c, hc, hckind⟩
  have hnot : strs.count y = 0 :=
    List.count_eq_zero.mpr fun hy => hckind ((hb.strings y (hstrs y hy)).2 c hc)
  have hcounted := hb.ledger.counted y
  have hcount := hb.ledger.count_of_body hc
  rw [List.count_append] at hcounted
  by_cases howed : owed.count y = 0
  · obtain ⟨a, d, hd, hmem⟩ :=
      exists_of_incoming_pos (by omega : 0 < h.incoming ObjectBody.children y)
    exact .inr ⟨a, ⟨d, hd, not_isString_of_children hmem⟩, holds_iff.mpr ⟨d, hd, hmem⟩⟩
  · exact .inl howed

/-- What remains after a release of strings. -/
theorem body_after_strings {strs : List Ref} (hb : Balanced S h (strs ++ owed))
    (hstrs : ∀ r ∈ strs, r ∈ S) (hrun : h.releaseRefs strs = .ok h₁)
    (hreleased : Released S h owed h₁) {x : Ref} {b : ObjectBody} (hbody : h.body x = some b)
    (hkind : ¬ b.IsString) : h₁.body x = some b := by
  have hcount := (releaseRefs_survives_iff hb hrun).mpr (held_without_strings hb hstrs hbody hkind)
  rcases hreleased.2.body x with heq | hnone
  · exact heq.trans hbody
  · exact absurd ((hreleased.1.ledger.body_iff x).mp hnone) hcount

/-- What holds an object that is not a string does not change. -/
theorem held_after_strings {strs : List Ref} (hb : Balanced S h (strs ++ (rs ++ owed)))
    (hstrs : ∀ r ∈ strs, r ∈ S) (hrun : h.releaseRefs strs = .ok h₁)
    (hreleased : Released S h (rs ++ owed) h₁) {x : Ref} {b : ObjectBody}
    (hbody : h.body x = some b) (hkind : ¬ b.IsString) :
    h₁.Held ObjectBody.children (fun x => owed.count x) x ↔
      h.Held ObjectBody.children (h.others rs) x := by
  have hothers : h.others rs = fun x => (strs ++ owed).count x := by
    refine others_eq (S := S) (hb.congr fun x => ?_)
    simp only [List.count_append]
    omega
  rw [hothers]
  constructor
  · rintro ⟨s, hmem, hs⟩
    refine ⟨s, hmem, fun y hy => ?_⟩
    rcases hs y hy with howed | ⟨a, ha, hholds⟩
    · have hother : owed.count y ≠ 0 := howed
      refine .inl (show (strs ++ owed).count y ≠ 0 from ?_)
      rw [List.count_append]
      omega
    · obtain ⟨d, hd, hchild⟩ := holds_iff.mp hholds
      refine .inr ⟨a, ha, holds_iff.mpr ⟨d, ?_, hchild⟩⟩
      rcases hreleased.2.body a with heq | hnone
      · exact heq ▸ hd
      · rw [hnone] at hd
        cases hd
  · rintro ⟨s, hmem, hs⟩
    refine ⟨s ∩ {y | ∃ b, h.body y = some b ∧ ¬ b.IsString}, ⟨hmem, b, hbody, hkind⟩, ?_⟩
    rintro y ⟨hy, c, hc, hckind⟩
    have hnot : strs.count y = 0 :=
      List.count_eq_zero.mpr fun hy => hckind ((hb.strings y (hstrs y hy)).2 c hc)
    rcases hs y hy with howed | ⟨a, ha, hholds⟩
    · have hother : (strs ++ owed).count y ≠ 0 := howed
      rw [List.count_append, hnot, Nat.zero_add] at hother
      exact .inl hother
    · obtain ⟨d, hd, hchild⟩ := holds_iff.mp hholds
      have hdkind := not_isString_of_children hchild
      exact .inr ⟨a, ⟨ha, d, hd, hdkind⟩,
        holds_iff.mpr ⟨d, body_after_strings hb hstrs hrun hreleased hd hdkind, hchild⟩⟩

theorem pooled_of_body {r : Ref} {b : ObjectBody} (hbody : h.body r = some b)
    (hbody₁ : h₁.body r = some b) : h₁.pooled r = h.pooled r := by
  rw [ObjectHeap.pooled, ObjectHeap.pooled, hbody, hbody₁]

/-- **A release after strings have been released** and the pool is gone. -/
theorem releaseRefs_after_strings_iff {strs : List Ref}
    (hb : Balanced S h (strs ++ (rs ++ owed))) (hstrs : ∀ r ∈ strs, r ∈ S)
    (hrun : h.releaseRefs strs = .ok h₁) (hreleased : Released S h (rs ++ owed) h₁) :
    (∃ h', ObjectHeap.releaseRefs (h₁.withdraw h₁.pooled) rs = .ok h') ↔
      ∀ r, h.Reached rs r → h.pooled r = false := by
  have hback : ∀ x b, h₁.body x = some b → h.body x = some b := by
    intro x b hb₁
    rcases hreleased.2.body x with heq | hnone
    · exact heq ▸ hb₁
    · rw [hnone] at hb₁
      cases hb₁
  have hlive : ∀ r, h₁.count r ≠ 0 → h₁.pooled r = h.pooled r := by
    intro r hcount
    cases hbody : h₁.body r with
    | none => exact absurd ((hreleased.1.ledger.body_iff r).mp hbody) hcount
    | some b => exact pooled_of_body (hback r b hbody) hbody
  have hroot : ∀ r ∈ rs, h₁.count r ≠ 0 := by
    intro r hr
    have hpos := List.count_pos_iff.mpr hr
    refine hreleased.1.ledger.count_ne_zero (r := r) ?_
    rw [List.count_append]
    omega
  have hchild : ∀ x b, h₁.body x = some b → ∀ y ∈ b.children, h₁.count y ≠ 0 := by
    intro x b hbody y hy
    have hincoming := hreleased.1.ledger.incoming_pos (holds_iff.mpr ⟨b, hbody, hy⟩)
    have hcounted := hreleased.1.ledger.counted y
    omega
  rw [releaseRefs_withdraw_iff hreleased.1]
  constructor
  · rintro ⟨hroots, hinner⟩ r (hr | ⟨x, b, hbody, hr, hheld⟩)
    · rw [← hlive r (hroot r hr)]
      exact hroots r hr
    · have hkind := not_isString_of_children hr
      have hbody₁ := body_after_strings hb hstrs hrun hreleased hbody hkind
      rw [← hlive r (hchild x b hbody₁ r hr)]
      exact hinner x b hbody₁
        (mt (held_after_strings hb hstrs hrun hreleased hbody hkind).mp hheld) r hr
  · intro hall
    refine ⟨fun r hr => ?_, fun x b hbody₁ hheld y hy => ?_⟩
    · rw [hlive r (hroot r hr)]
      exact hall r (.inl hr)
    · have hbody := hback x b hbody₁
      have hkind := not_isString_of_children hy
      rw [hlive y (hchild x b hbody₁ y hy)]
      exact hall y (.inr ⟨x, b, hbody, hy,
        mt (held_after_strings hb hstrs hrun hreleased hbody hkind).mpr hheld⟩)

end Releases

/-! ### The sequences -/

namespace RuntimeState

variable {s : RuntimeState} {lost : List Ref}

/-- A call returns. -/
def Returns {α : Type} (u : Exec α) : Prop :=
  ∃ a, u = .ok a

theorem not_returns_error {α : Type} {e : Stop} : ¬ Returns (.error e : Exec α) := by
  rintro ⟨a, ha⟩
  cases ha

theorem returns_map_iff {α β : Type} {f : α → β} {u : Exec α} :
    Returns (f <$> u) ↔ Returns u := by
  cases u <;> simp [Returns, Functor.map, Except.map]

theorem stringInternCleanup_eq (s : RuntimeState) : s.stringInternCleanup =
    (fun h => { s with objects := { s.objects with
      heap := h, interned := s.objects.interned.map fun _ => none } }) <$>
        s.heap.releaseRefs s.objects.internedRefs := by
  rw [stringInternCleanup, ObjectState.stringInternCleanup, heap]
  cases s.objects.heap.releaseRefs s.objects.internedRefs <;> rfl

theorem cleanupFunctions_eq (s : RuntimeState) : s.cleanupFunctions =
    (fun h => { s.withHeap h with functions := [] }) <$> s.heap.releaseRefs s.functionRefs := by
  have hloop : s.functions.foldlM (fun h defaults => defaults.foldlM ObjectHeap.valueRelease h)
      s.heap = s.heap.releaseRefs s.functionRefs :=
    foldlM_releaseRefs valueRefs _ _ fun _ _ => foldlM_releaseRefs _ _ _ fun _ _ => rfl
  rw [cleanupFunctions, hloop]
  cases s.heap.releaseRefs s.functionRefs <;> rfl

theorem cleanupVariables_eq (s : RuntimeState) : s.cleanupVariables =
    (fun h => { s.withHeap h with scopes := [] }) <$> s.heap.releaseRefs s.variableRefs := by
  have hloop : s.scopes.foldlM ObjectHeap.releaseVariables s.heap =
      s.heap.releaseRefs s.variableRefs :=
    foldlM_releaseRefs scopeRefs _ _ fun _ _ => releaseVariables_eq _
  rw [cleanupVariables, hloop]
  cases s.heap.releaseRefs s.variableRefs <;> rfl

/-- Two releases in a row. -/
theorem returns_functions_variables_iff (s : RuntimeState) :
    Returns (s.cleanupFunctions >>= cleanupVariables) ↔
      Returns (s.heap.releaseRefs (s.functionRefs ++ s.variableRefs)) := by
  rw [cleanupFunctions_eq, releaseRefs_append]
  cases s.heap.releaseRefs s.functionRefs with
  | error e => exact iff_of_false not_returns_error not_returns_error
  | ok h =>
      show Returns ({ s.withHeap h with functions := [] } : RuntimeState).cleanupVariables ↔
        Returns (h.releaseRefs s.variableRefs)
      rw [cleanupVariables_eq, returns_map_iff]
      rfl

/-- **The sequences that clean the table of strings first.** -/
theorem returns_cleanupRuntime_iff (hs : s.Accounted lost) : Returns s.cleanupRuntime ↔
    ∀ r, s.heap.Reached (s.functionRefs ++ s.variableRefs) r → s.heap.pooled r = false := by
  have hb : Balanced {x | x ∈ s.objects.internedRefs} s.heap (s.objects.internedRefs ++
      ((s.functionRefs ++ s.variableRefs) ++ (valueRefs s.objects.held ++ lost))) := by
    refine hs.balanced.congr fun x => ?_
    simp only [List.count_append]
    omega
  obtain ⟨h₁, hrun, hreleased⟩ := releaseRefs_returns hb
  refine Iff.trans ?_ (releaseRefs_after_strings_iff hb (fun _ hr => hr) hrun hreleased)
  rw [cleanupRuntime, stringInternCleanup_eq, hrun]
  exact returns_functions_variables_iff _

/-- **The sequence that cleans the table of strings after the pool.** -/
theorem returns_cleanupAll_iff (hs : s.Accounted lost) : Returns s.cleanupAllThenVariables ↔
    ∀ r, s.heap.Reached (s.objects.internedRefs ++ s.variableRefs) r →
      s.heap.pooled r = false := by
  have hb : Balanced {x | x ∈ s.objects.internedRefs} s.heap ((s.objects.internedRefs ++
      s.variableRefs) ++ (s.functionRefs ++ (valueRefs s.objects.held ++ lost))) := by
    refine hs.balanced.congr fun x => ?_
    simp only [List.count_append]
    omega
  refine Iff.trans ?_ (releaseRefs_pooled_iff hb)
  rw [cleanupAllThenVariables, memoryCleanupAll, stringInternCleanup_eq, releaseRefs_append]
  show Returns (((fun h => _) <$> ObjectHeap.releaseRefs (s.heap.withdraw s.heap.pooled)
    s.objects.internedRefs) >>= cleanupVariables) ↔ _
  cases ObjectHeap.releaseRefs (s.heap.withdraw s.heap.pooled) s.objects.internedRefs with
  | error e => exact iff_of_false not_returns_error not_returns_error
  | ok h =>
      refine Iff.trans ?_ (Iff.refl (Returns (h.releaseRefs s.variableRefs)))
      show Returns (cleanupVariables _) ↔ _
      rw [cleanupVariables_eq, returns_map_iff]
      rfl

/-- **When the shutdown sequences get to live storage only**: exactly when no object that
they release, and no object that is destroyed with one refers to, has a block of the pool. -/
theorem teardown_live_iff {c : FloatConversions} {definitions : List ClassDefinition}
    {ops : List RuntimeOp} {rs : List (List HeapValue)}
    (hrun : Run.run (step c) (init definitions) ops = .ok (s, rs))
    (hreleases : Run.Guarded (step c) Releases (init definitions) ops) :
    s.TeardownLive ↔ s.TeardownReady := by
  obtain ⟨lost, hs⟩ := run_accounted hrun hreleases
  constructor
  · rintro ⟨hruntime, -, hall⟩
    exact ⟨(returns_cleanupRuntime_iff hs).mp hruntime, (returns_cleanupAll_iff hs).mp hall⟩
  · rintro ⟨hstored, hinterned⟩
    have hruntime := (returns_cleanupRuntime_iff hs).mpr hstored
    exact ⟨hruntime, hruntime, (returns_cleanupAll_iff hs).mpr hinterned⟩

/-- A program whose variable holds an instance without fields at the end. -/
def instanceOps : List RuntimeOp :=
  [.onObjects (.classCreateInstance ['A'] none [] []), .declareVariable .typeClass,
    .assignVariable 0 0 (.class (some 0))]

/-- The object that is left at its end. -/
def instanceHeap : ObjectHeap :=
  (Heap.empty.alloc (.instance (.new ['A'] none none [] []))).retain 0

/-- The state at its end. -/
def instanceState : RuntimeState where
  objects := { ObjectState.init [] with heap := instanceHeap, held := [.class (some 0)] }
  scopes := [[⟨.typeClass, .class (some 0)⟩]]
  functions := []

theorem instanceHeap_children {x : Ref} {b : ObjectBody} (hb : instanceHeap.body x = some b) :
    b.children = [] := by
  by_cases hx : x = 0
  · subst hx
    cases hb
    rfl
  · cases (Function.update_of_ne hx _ _).symm.trans hb

theorem instanceHeap_not_pooled {r : Ref} (hr : r ∈ [0]) : instanceHeap.pooled r = false := by
  cases List.mem_singleton.mp hr
  rfl

theorem instance_torn_down : ∃ s rs,
    Run.run (step zeroConversions) (init []) instanceOps = .ok (s, rs) ∧ s.TeardownLive := by
  have hrun : Run.run (step zeroConversions) (init []) instanceOps =
      .ok (instanceState, [[.class (some 0)], [], []]) := rfl
  have hroots : ∀ r : Ref, instanceHeap.Reached [0] r → instanceHeap.pooled r = false :=
    fun r hr => instanceHeap_not_pooled (hr.mem_of_childless fun _ _ => instanceHeap_children)
  have hguard : Run.Guarded (step zeroConversions) Releases (init []) instanceOps :=
    ⟨trivial, trivial, trivial, trivial⟩
  have hinterned : instanceState.objects.internedRefs = [] := ObjectState.internedRefs_init []
  refine ⟨_, _, hrun, (teardown_live_iff hrun hguard).mpr ⟨hroots, ?_⟩⟩
  rw [hinterned]
  exact hroots

/-- A program whose variable holds an array at the end. -/
def arrayOps : List RuntimeOp :=
  [.onObjects (.onHeap (.arrayNew 0 .typeInt)), .declareVariable .typeArray,
    .assignVariable 0 0 (.array (some 0))]

/-- **An array that a variable holds** is released after its block has been returned. -/
theorem array_not_torn_down : ∃ s rs,
    Run.run (step zeroConversions) (init []) arrayOps = .ok (s, rs) ∧
      Run.Guarded (step zeroConversions) Releases (init []) arrayOps ∧ ¬ s.TeardownLive := by
  have hguard : Run.Guarded (step zeroConversions) Releases (init []) arrayOps :=
    ⟨trivial, trivial, trivial, trivial⟩
  have hrun : Run.run (step zeroConversions) (init []) arrayOps = .ok (_, _) := rfl
  refine ⟨_, _, hrun, hguard, fun hlive => ?_⟩
  obtain ⟨lost, hs⟩ := run_accounted hrun hguard
  have hpooled := (returns_cleanupRuntime_iff hs).mp hlive.runtime 0 (.inl (by decide))
  exact absurd hpooled (by decide)

end RuntimeState

end BreadLang
