import BreadLang.Runtime.DictConservation

/-!
# References are conserved over runs

A program makes objects, changes them and releases what it holds.  `Accounted` is the
invariant of every run: the counts are the references that objects, the caller and the
table of interned strings hold, and those that have been lost.  A step that satisfies
`StepKeeps` loses nothing.

When a run has lost nothing and its objects refer to each other without a cycle, the
release of what the caller holds frees every object once.  The strings that the table
holds are the exception, until it is cleaned up.
-/

namespace BreadLang

open RefCount

/-! ### Optionals, structs and instances -/

section Objects

variable {S : Set Ref} {h : ObjectHeap} {owed : List Ref} {r : Ref} {v : HeapValue}

theorem optionalNewSome_spec (hb : Balanced S h owed) (v : HeapValue) :
    Gives (h.optionalNewSome v) fun result => Balanced S result.2 (result.1 :: owed) := by
  have hnew : Balanced S (h.create (.optional (some .nil))).2
      ((h.create (.optional (some .nil))).1 :: owed) := create_spec hb
  refine gives_bind (valueClone_spec hnew) ?_
  rintro h₁ ⟨hb₁, hsame⟩
  refine gives_bind (write_spec ((h.create (.optional (some .nil))).1 :: owed) hb₁
    fun b hbody => ?_) ?_
  · cases hbody.symm.trans ((congrFun hsame _).trans (body_create h (.optional (some .nil))))
    refine ⟨id, fun x => ?_⟩
    simp only [ObjectBody.children, Option.toList_some, valueRefs_singleton, refs_nil,
      List.count_append, List.count_nil]
    omega
  · rintro h₂ ⟨hb₂, -⟩
    exact gives_pure hb₂

/-- Values that are all nil refer to nothing. -/
theorem valueRefs_map_nil (names : List Ident) :
    valueRefs (names.map fun _ => HeapValue.nil) = [] := by
  rw [valueRefs, List.flatMap_eq_nil_iff]
  intro v hv
  obtain ⟨-, -, rfl⟩ := List.mem_map.mp hv
  rfl

theorem structSetField_spec (hb : Balanced S h owed) (s : Option Ref) (name : Ident)
    (v : HeapValue) : Gives (h.structSetField s name v) fun h' => Balanced S h' owed := by
  cases s with
  | none => exact gives_ok hb
  | some r =>
      unfold ObjectHeap.structSetField
      dsimp only
      split
      · rename_i s hbody
        split
        · exact gives_ok hb
        split
        · exact gives_error
        rename_i index hindex old hold
        exact replaceElement_spec (fun vs => .struct { s with fieldValues := vs }) hb
          (fun _ => ⟨id, rfl⟩) hbody hold v
      · exact gives_error

theorem classSetField_spec (hb : Balanced S h owed) (c : Option Ref) (name : Ident)
    (v : HeapValue) : Gives (h.classSetField c name v) fun h' => Balanced S h' owed := by
  cases c with
  | none => exact gives_ok hb
  | some r =>
      unfold ObjectHeap.classSetField
      dsimp only
      split
      · rename_i c hbody
        split
        · exact gives_ok hb
        split
        · exact gives_error
        rename_i index hindex old hold
        exact replaceElement_spec (fun vs => .instance { c with fieldValues := vs }) hb
          (fun _ => ⟨id, rfl⟩) hbody hold v
      · exact gives_error

theorem setFieldsByPosition_spec (names : List Ident) (args : List HeapValue)
    (hb : Balanced S h owed) :
    Gives (h.setFieldsByPosition r names args) fun h' => Balanced S h' owed := by
  induction names generalizing h args with
  | nil => exact gives_ok hb
  | cons name names ih =>
      cases args with
      | nil => exact gives_ok hb
      | cons v vs => exact gives_bind (classSetField_spec hb _ name v) fun h' hb' => ih vs hb'

theorem classExecuteConstructor_spec (hb : Balanced S h owed) (r : Ref) (args : List HeapValue) :
    Gives (h.classExecuteConstructor r args) fun h' => Balanced S h' owed := by
  unfold ObjectHeap.classExecuteConstructor
  split
  · exact setFieldsByPosition_spec _ _ hb
  · exact gives_error

end Objects

/-! ### Operations -/

/-- An operation on the objects loses nothing. -/
def ObjectHeap.performKeeps (h : ObjectHeap) : HeapOp → Bool
  | .dictFromLiteral pairs => h.literalKeeps pairs
  | .dictSetSafe d key value => h.setSafeKeeps d key value
  | .valueDictKeysAsValue v => h.asValueKeeps v
  | _ => true

/-- The values that a caller gets are owed to it. -/
theorem perform_spec {S : Set Ref} {h : ObjectHeap} {owed : List Ref} (hb : Balanced S h owed)
    (op : HeapOp) : Gives (h.perform op) fun result =>
      ConservesIf S (h.performKeeps op = true) (valueRefs result.1 ++ owed) result.2 := by
  have hkeep : ∀ (vs : List HeapValue) {h' : ObjectHeap}, Balanced S h' (valueRefs vs ++ owed) →
      ConservesIf S (h.performKeeps op = true) (valueRefs vs ++ owed) h' := fun _ _ hb => .of_balanced hb
  cases op with
  | valueClone v =>
      refine gives_bind (valueClone_spec hb) fun h' hb' => gives_pure (hkeep [v] ?_)
      rw [valueRefs_singleton]
      exact hb'.1
  | stringNew data => exact gives_ok (hkeep [_] (create_spec hb))
  | stringConcat a b =>
      refine gives_bind (P := fun result => Balanced S result.2 (result.1 :: owed)) ?_
        fun result hb' => gives_pure (hkeep [.string (some result.1)] hb')
      exact gives_bind_any fun left => gives_bind_any fun right => gives_pure (create_spec hb)
  | arrayNew capacity elementType => exact gives_ok (hkeep [_] (create_spec hb))
  | arrayFromLiteral elements =>
      refine gives_bind (arrayFromLiteral_spec hb elements) fun result hb' =>
        gives_pure (hkeep [.array result.1] ?_)
      rw [valueRefs_singleton]
      exact hb'
  | arrayRepeating v count =>
      exact gives_bind (arrayRepeating_spec hb v count) fun result hb' =>
        gives_pure (hkeep [.array (some result.1)] hb')
  | arrayAppend a v =>
      exact gives_bind (arrayAppend_spec hb a v) fun result hb' => gives_pure (hkeep [] hb')
  | arraySet a idx v =>
      exact gives_bind (arraySet_spec hb a idx v) fun result hb' =>
        gives_pure (hkeep [] hb')
  | arraySetSafe a index v =>
      exact gives_bind (arraySetSafe_spec hb a index v) fun result hb' =>
        gives_pure (hkeep [] hb')
  | arrayInsert a v index =>
      exact gives_bind (arrayInsert_spec hb a v index) fun result hb' =>
        gives_pure (hkeep [] hb')
  | arrayRemoveAt a index =>
      refine gives_bind (arrayRemoveAt_spec hb a index) fun result hb' =>
        gives_pure (hkeep [result.1] ?_)
      rw [valueRefs_singleton]
      exact hb'
  | dictNew capacity keyType valueType =>
      refine gives_ok (hkeep [_] (create_spec ?_))
      rwa [children_dict, refs_new, List.nil_append]
  | dictFromLiteral pairs =>
      refine gives_bind (dictFromLiteral_spec hb pairs) ?_
      rintro ⟨r, h', e⟩ hkeeps
      refine gives_pure ?_
      rw [valueRefs_singleton]
      exact hkeeps
  | dictSetSafe d key value =>
      exact gives_bind (dictSetSafe_spec hb d key value) fun result hkeeps => gives_pure hkeeps
  | dictSet r key value =>
      exact gives_bind (dictSet_spec hb r key value) fun result hb' =>
        gives_pure (hkeep [] hb')
  | dictRemove d key =>
      exact gives_bind (dictRemove_spec hb d key) fun result hb' => gives_pure (hkeep _ hb')
  | dictClear d =>
      exact gives_bind (dictClear_spec hb d) fun h' hb' => gives_pure (hkeep [] hb')
  | dictKeys d =>
      refine gives_bind (dictKeys_spec hb d) fun result hb' =>
        gives_pure (hkeep [.array result.1] ?_)
      rw [valueRefs_singleton]
      exact hb'
  | dictValues d =>
      refine gives_bind (dictValues_spec hb d) fun result hb' =>
        gives_pure (hkeep [.array result.1] ?_)
      rw [valueRefs_singleton]
      exact hb'
  | valueDictKeysAsValue v =>
      exact gives_bind (valueDictKeysAsValue_spec hb v) fun result hkeeps => gives_pure hkeeps
  | dictGetWithDefault d key default =>
      refine gives_bind (dictGetWithDefault_spec hb d key default) fun result hb' =>
        gives_pure (hkeep [result.1] ?_)
      rw [valueRefs_singleton]
      exact hb'
  | optionalNewNone => exact gives_ok (hkeep [_] (create_spec hb))
  | optionalNewSome v =>
      exact gives_bind (optionalNewSome_spec hb v) fun result hb' =>
        gives_pure (hkeep [.optional (some result.1)] hb')
  | structNew typeName fieldNames =>
      refine gives_ok (hkeep [_] (create_spec ?_))
      rwa [ObjectBody.children, valueRefs_map_nil, List.nil_append]
  | structSetField s name v =>
      exact gives_bind (structSetField_spec hb s name v) fun h' hb' =>
        gives_pure (hkeep [] hb')
  | classNew className parentName fieldNames methodNames =>
      refine gives_ok (hkeep [_] (create_spec ?_))
      rwa [ObjectBody.children, ClassBody.new, valueRefs_map_nil, List.nil_append]
  | classSetField c name v =>
      exact gives_bind (classSetField_spec hb c name v) fun h' hb' =>
        gives_pure (hkeep [] hb')
  | classExecuteConstructor r args =>
      exact gives_bind (classExecuteConstructor_spec hb r args) fun h' hb' =>
        gives_pure (hkeep [] hb')

namespace ObjectState

/-- **A step loses nothing**: no literal and no growth of a dictionary puts an entry over
one that holds references, no keys are made a value, and no instance is made of a class
with a parent. -/
def stepKeeps (s : ObjectState) : ObjectOp → Bool
  | .onHeap op => s.heap.performKeeps op
  | .classCreateInstance className _ _ _ =>
      (s.findDefinition className).all fun c => c.parentClass.isNone
  | _ => true

/-- The caller releases what it holds. -/
def Releases (s : ObjectState) : ObjectOp → Prop
  | .release v => v ∈ s.held
  | _ => True

instance (s : ObjectState) (op : ObjectOp) : Decidable (s.Releases op) := by
  unfold Releases
  cases op <;> infer_instance

/-- **Every count is accounted for**: by objects, by the caller, by the table of interned
strings and by what has been lost. -/
structure Accounted (s : ObjectState) (lost : List Ref) : Prop where
  balanced : Balanced {x | x ∈ s.internedRefs} s.heap
    (valueRefs s.held ++ (lost ++ s.internedRefs))
  buckets : s.interned.length = internTableSize

section Steps

variable {s : ObjectState} {lost : List Ref}

theorem internedRefs_init (definitions : List ClassDefinition) :
    (init definitions).internedRefs = [] := by
  simp [internedRefs, init, List.flatMap_replicate]

theorem accounted_init (definitions : List ClassDefinition) : (init definitions).Accounted [] := by
  refine ⟨⟨?_, fun x hx => ?_⟩, List.length_replicate⟩
  · rw [internedRefs_init]
    exact ledger_empty
  · rw [internedRefs_init] at hx
    cases hx

/-- What a step makes of the lost references and of the definitions. -/
def StepResult (s : ObjectState) (lost : List Ref) (keeps : Bool) (s' : ObjectState) : Prop :=
  ∃ lost', s'.Accounted (lost' ++ lost) ∧
    (keeps = true → lost' = [] ∧ s'.definitions = s.definitions)

/-- An operation on the objects alone. -/
theorem accounted_onHeap (hs : s.Accounted lost) {h : ObjectHeap} {vs held : List HeapValue}
    {condition : Bool} (hkeeps : ConservesIf {x | x ∈ s.internedRefs} (condition = true)
      (valueRefs vs ++ (valueRefs held ++ (lost ++ s.internedRefs))) h) :
    s.StepResult lost condition { s with heap := h, held := vs ++ held } := by
  obtain ⟨lost', hb, hlost⟩ := hkeeps
  refine ⟨lost', ⟨hb.congr fun x => ?_, hs.buckets⟩, fun hclear => ⟨hlost hclear, rfl⟩⟩
  show (valueRefs (vs ++ held) ++ (lost' ++ lost ++ s.internedRefs)).count x = _
  simp only [valueRefs_append, List.count_append]
  omega

theorem stringHash_lt (data : BreadString) : stringHash data < internTableSize :=
  Nat.mod_lt _ (by decide)

/-- A value that the caller is to release. -/
theorem Accounted.balanced_release (hs : s.Accounted lost) {v : HeapValue} (hv : v ∈ s.held) :
    Balanced {x | x ∈ s.internedRefs} s.heap
      (v.refs ++ (valueRefs (s.held.erase v) ++ (lost ++ s.internedRefs))) := by
  refine hs.balanced.congr fun x => ?_
  have hx := ((List.perm_cons_erase hv).flatMap_right HeapValue.refs).count_eq x
  simp only [List.flatMap_cons, List.count_append] at hx
  simp only [valueRefs, List.count_append]
  omega

/-- The strings that the table is to give back. -/
theorem Accounted.balanced_cleanup (hs : s.Accounted lost) :
    Balanced {x | x ∈ s.internedRefs} s.heap (s.internedRefs ++ (valueRefs s.held ++ lost)) := by
  refine hs.balanced.congr fun x => ?_
  simp only [List.count_append]
  omega

/-- A new string is to take the place of the one in a bucket, which the table gives back. -/
theorem balanced_evict (hs : s.Accounted lost) (data : BreadString) :
    Balanced {x | x ∈ (s.interned.set (stringHash data) (some s.heap.size)).flatMap Option.toList}
      (s.heap.stringNew data).2 (s.interned[stringHash data]?.join.toList ++
        s.heap.size :: (valueRefs s.held ++
          (lost ++ (s.interned.set (stringHash data) none).flatMap Option.toList))) := by
  have hlt : stringHash data < s.interned.length := by
    rw [hs.buckets]
    exact stringHash_lt _
  have hbucket := List.getElem?_eq_getElem hlt
  have hnew : Balanced {x | x ∈ s.internedRefs} (s.heap.stringNew data).2
      (s.heap.size :: (valueRefs s.held ++ (lost ++ s.internedRefs))) :=
    create_spec hs.balanced
  have hbody : (s.heap.stringNew data).2.body s.heap.size = some (.string data) :=
    body_create s.heap _
  have hstrings : Balanced
      {x | x ∈ (s.interned.set (stringHash data) (some s.heap.size)).flatMap Option.toList}
      (s.heap.stringNew data).2
      (s.heap.size :: (valueRefs s.held ++ (lost ++ s.internedRefs))) := by
    refine ⟨hnew.ledger, fun x hx => ?_⟩
    obtain ⟨bucket, hb, hx⟩ := List.mem_flatMap.mp hx
    rcases List.mem_or_eq_of_mem_set hb with hb | rfl
    · exact hnew.strings x (List.mem_flatMap.mpr ⟨bucket, hb, hx⟩)
    · obtain rfl : x = s.heap.size := by simpa using hx
      refine ⟨Nat.lt_succ_self _, fun b hb => ?_⟩
      rw [hbody] at hb
      cases hb
      trivial
  refine hstrings.congr fun x => ?_
  have hx := count_flatMap_set (f := Option.toList) (b := none) (x := x) hbucket
  rw [hbucket]
  simp only [Option.join_some, internedRefs, List.count_append, List.count_cons,
    Option.toList_none, List.count_nil] at hx ⊢
  omega

/-- **A string literal** is owed to the caller and to the table. -/
theorem stringNewLiteral_spec (hs : s.Accounted lost) (cstr : BreadString) :
    Gives (s.stringNewLiteral cstr) fun result =>
      s.StepResult lost true { result.2 with held := .string (some result.1) :: result.2.held } := by
  have hlt : stringHash (cString cstr) < s.interned.length := by
    rw [hs.buckets]
    exact stringHash_lt _
  have hbucket := List.getElem?_eq_getElem hlt
  unfold stringNewLiteral
  dsimp only
  refine gives_bind_any fun same => ?_
  split
  · refine gives_bind (objectRetain_spec hs.balanced) ?_
    rintro h ⟨hb, -⟩
    exact gives_pure ⟨[], ⟨hb, hs.buckets⟩, fun _ => ⟨rfl, rfl⟩⟩
  · -- the new string takes the place of the one in the bucket
    refine gives_bind (releaseRefs_spec _ _ (balanced_evict hs (cString cstr))) ?_
    rintro h₁ ⟨hb₁, -⟩
    refine gives_bind (objectRetain_spec hb₁) ?_
    rintro h₂ ⟨hb₂, -⟩
    refine gives_pure ⟨[], ⟨hb₂.congr fun x => ?_, ?_⟩, fun _ => ⟨rfl, rfl⟩⟩
    · have hx := count_flatMap_set (f := Option.toList) (b := none) (x := x) hbucket
      have hx' := count_flatMap_set (f := Option.toList) (b := some s.heap.size) (x := x) hbucket
      show (s.heap.size :: valueRefs s.held ++ (lost ++
          (s.interned.set (stringHash (cString cstr)) (some s.heap.size)).flatMap
            Option.toList)).count x =
        (s.heap.size :: s.heap.size :: (valueRefs s.held ++ (lost ++
          (s.interned.set (stringHash (cString cstr)) none).flatMap Option.toList))).count x
      simp only [List.cons_append, List.count_append, List.count_cons, Option.toList_none,
        Option.toList_some, List.count_nil] at hx hx' ⊢
      omega
    · exact List.length_set.trans hs.buckets

/-- The table gives back what it holds. -/
theorem stringInternCleanup_spec (hs : s.Accounted lost) :
    Gives s.stringInternCleanup (s.StepResult lost true) := by
  have hempty : (s.interned.map fun _ => (none : Option Ref)).flatMap Option.toList = [] := by
    simp
  refine gives_bind (releaseRefs_spec _ _ hs.balanced_cleanup) ?_
  rintro h ⟨hb, -⟩
  refine gives_pure ⟨[], ⟨⟨?_, fun x hx => ?_⟩, ?_⟩, fun _ => ⟨rfl, rfl⟩⟩
  · refine Ledger.congr hb.ledger fun x => ?_
    show (valueRefs s.held ++ (lost ++ (s.interned.map _).flatMap Option.toList)).count x = _
    rw [hempty, List.append_nil]
  · have hmem : x ∈ (s.interned.map fun _ => (none : Option Ref)).flatMap Option.toList := hx
    rw [hempty] at hmem
    cases hmem
  · exact (List.length_map _).trans hs.buckets

theorem retainDefinition_frame (i : ℕ) :
    Gives (s.retainDefinition i) fun s' =>
      s'.heap = s.heap ∧ s'.held = s.held ∧ s'.interned = s.interned := by
  unfold retainDefinition
  split
  · exact gives_error
  split
  · exact gives_error
  · exact gives_ok ⟨rfl, rfl, rfl⟩

/-- **An instance** is owed to the caller.  The definitions are what they were when the
class has no parent. -/
theorem classCreateInstance_spec (hs : s.Accounted lost) (className : Ident)
    (parentName : Option Ident) (fieldNames methodNames : List Ident) :
    Gives (s.classCreateInstance className parentName fieldNames methodNames) fun result =>
      s.StepResult lost (s.stepKeeps (.classCreateInstance className parentName fieldNames
        methodNames)) { result.2 with held := .class (some result.1) :: result.2.held } := by
  have hcreate : ∀ (c : Option ℕ) (names : List Ident), Balanced {x | x ∈ s.internedRefs}
      (s.heap.create (.instance (.new className parentName c names methodNames))).2
      (s.heap.size :: (valueRefs s.held ++ (lost ++ s.internedRefs))) := by
    intro c names
    refine create_spec ?_
    rw [ObjectBody.children, ClassBody.new, valueRefs_map_nil, List.nil_append]
    exact hs.balanced
  unfold classCreateInstance stepKeeps
  cases hfind : s.findDefinition className with
  | none => exact gives_ok ⟨[], ⟨hcreate none fieldNames, hs.buckets⟩, fun _ => ⟨rfl, rfl⟩⟩
  | some classDef =>
      refine gives_bind_any fun names => ?_
      cases hparent : classDef.parentClass with
      | none => exact gives_pure ⟨[], ⟨hcreate _ names, hs.buckets⟩, fun _ => ⟨rfl, rfl⟩⟩
      | some i =>
          refine gives_bind (retainDefinition_frame i) ?_
          rintro ⟨heap, interned, definitions, held⟩ ⟨rfl, rfl, rfl⟩
          refine gives_pure ⟨[], ⟨hcreate _ names, hs.buckets⟩, fun hclear => ?_⟩
          simp [hfind, hparent] at hclear

/-- **One step** keeps every count accounted for. -/
theorem step_spec (hs : s.Accounted lost) (op : ObjectOp) (hreleases : s.Releases op) :
    Gives (s.step op) fun result => s.StepResult lost (s.stepKeeps op) result.1 := by
  cases op with
  | onHeap op =>
      refine gives_bind (perform_spec hs.balanced op) ?_
      rintro ⟨vs, h⟩ hkeeps
      exact gives_pure (accounted_onHeap hs hkeeps)
  | release v =>
      refine gives_bind (valueRelease_spec _ (hs.balanced_release hreleases)) ?_
      rintro h ⟨hb, -⟩
      exact gives_pure ⟨[], ⟨hb, hs.buckets⟩, fun _ => ⟨rfl, rfl⟩⟩
  | stringNewLiteral cstr =>
      refine gives_bind (stringNewLiteral_spec hs cstr) ?_
      rintro ⟨r, s'⟩ hresult
      exact gives_pure hresult
  | stringInternCleanup =>
      exact gives_bind (stringInternCleanup_spec hs) fun s' hresult => gives_pure hresult
  | classCreateInstance className parentName fieldNames methodNames =>
      refine gives_bind (classCreateInstance_spec hs className parentName fieldNames methodNames) ?_
      rintro ⟨r, s'⟩ hresult
      exact gives_pure hresult

end Steps

/-! ### Runs -/

section Runs

variable {definitions : List ClassDefinition} {ops : List ObjectOp} {s : ObjectState}
  {rs : List (List HeapValue)}

/-- After every run the counts are accounted for, lost references included. -/
theorem run_accounted (hrun : Run.run step (init definitions) ops = .ok (s, rs))
    (hreleases : Run.Guarded step Releases (init definitions) ops) :
    ∃ lost, s.Accounted lost := by
  refine Run.run_preserves (fun s => ∃ lost, s.Accounted lost) ops ?_ _ _ _
    ⟨[], accounted_init definitions⟩ hreleases hrun
  rintro s op ⟨lost, hs⟩ hnow s' r hstep
  obtain ⟨lost', hs', -⟩ := step_spec hs op hnow _ hstep
  exact ⟨_, hs'⟩

/-- A run whose steps lose nothing leaves the definitions as they were. -/
theorem run_keeps (hrun : Run.run step (init definitions) ops = .ok (s, rs))
    (hguard : Run.Guarded step (fun s op => s.Releases op ∧ s.stepKeeps op = true)
      (init definitions) ops) :
    s.Accounted [] ∧ s.definitions = definitions := by
  refine Run.run_preserves (fun s => s.Accounted [] ∧ s.definitions = definitions) ops ?_ _ _ _
    ⟨accounted_init definitions, rfl⟩ hguard hrun
  rintro s op ⟨hs, hdefinitions⟩ ⟨hnow, hkeeps⟩ s' r hstep
  obtain ⟨lost, hs', hclear⟩ := step_spec hs op hnow _ hstep
  obtain ⟨rfl, hsame⟩ := hclear hkeeps
  exact ⟨hs', hsame.trans hdefinitions⟩

/-- **References are conserved**: every object has been freed exactly once, but for the
strings that the table of interned strings holds, and every definition has the count that
it had at the start. -/
structure Conserved (definitions : List ClassDefinition) (s : ObjectState) : Prop where
  freed : ∀ r < s.heap.size, r ∉ s.internedRefs → s.heap.returned r = 1
  definitions : s.definitions.map ClassDefinition.refcount =
    definitions.map ClassDefinition.refcount

/-- The caller can release everything that it holds. -/
theorem Accounted.releaseHeld {lost : List Ref} (hs : s.Accounted lost) :
    ∃ h, s.releaseHeld = .ok { s with heap := h, held := [] } ∧
      Released {x | x ∈ s.internedRefs} s.heap (lost ++ s.internedRefs) h := by
  obtain ⟨h, hrun, hreleased⟩ := releaseRefs_returns hs.balanced
  refine ⟨h, ?_, hreleased⟩
  rw [ObjectState.releaseHeld, hrun]
  rfl

/-- **Every run that reaches none of the places where references are lost conserves
them.**  The objects that it leaves refer to each other without a cycle. -/
theorem references_conserved (definitions : List ClassDefinition) (ops : List ObjectOp)
    (s : ObjectState) (rs : List (List HeapValue))
    (hrun : Run.run step (init definitions) ops = .ok (s, rs))
    (hguard : Run.Guarded step (fun s op => s.Releases op ∧ s.stepKeeps op = true)
      (init definitions) ops)
    (hacyclic : s.heap.Acyclic ObjectBody.children) :
    ∃ s', s.releaseHeld = .ok s' ∧ Conserved definitions s' := by
  obtain ⟨hs, hdefinitions⟩ := run_keeps hrun hguard
  obtain ⟨h, hrelease, hb, hshrinks⟩ := hs.releaseHeld
  refine ⟨_, hrelease, fun r hr hinterned => ?_, by rw [hdefinitions]⟩
  refine hb.ledger.returned_of_count hr ?_
  by_contra hcount
  -- an object that is left is reached from an interned string, which holds nothing
  obtain ⟨a, howed, hreach⟩ := hb.ledger.exists_owed (hacyclic.shrinks hshrinks) hcount
  have ha : a ∈ s.internedRefs := by
    simpa using List.count_pos_iff.mp (Nat.pos_of_ne_zero howed)
  rcases hreach.cases_head with rfl | ⟨b, hholds, -⟩
  · exact hinterned ha
  · obtain ⟨body, hbody, hmem⟩ := holds_iff.mp hholds
    have hstring := (hb.strings a ha).2 body hbody
    cases body with
    | string data => exact List.not_mem_nil hmem
    | _ => exact hstring

end Runs

/-! ### Two programs -/

/-- The objects that a run leaves refer to older ones only. -/
def refersToOlder (s : ObjectState) : Bool :=
  (List.range s.heap.size).all fun a => (s.heap.fields ObjectBody.children a).all fun b => b < a

theorem acyclic_of_refersToOlder {s : ObjectState} {lost : List Ref} (hs : s.Accounted lost)
    (holder : s.refersToOlder = true) : s.heap.Acyclic ObjectBody.children := by
  refine acyclic_of_older s.heap fun a b hholds => ?_
  obtain ⟨body, hbody, -⟩ := holds_iff.mp hholds
  have ha : a < s.heap.size :=
    (hs.balanced.ledger.usable (hs.balanced.ledger.count_of_body hbody)).1
  have hall := List.all_eq_true.mp holder a (List.mem_range.mpr ha)
  exact of_decide_eq_true (List.all_eq_true.mp hall b hholds)

/-- A string in an array and in a dictionary, and an instance of a class without a parent. -/
def loafOps : List ObjectOp :=
  [.onHeap (.stringNew "bread".toList),
    .onHeap (.arrayFromLiteral [.string (some 0)]),
    .onHeap (.dictNew 0 .typeString .typeArray),
    .onHeap (.dictSetSafe (some 2) (.string (some 0)) (.array (some 1))),
    .classCreateInstance "Loaf".toList none [] []]

def loafDefinitions : List ClassDefinition :=
  [⟨"Loaf".toList, none, ["crust".toList], 1⟩]

theorem loaf_conserved : ∃ s s', (∃ rs, Run.run step (init loafDefinitions) loafOps = .ok (s, rs)) ∧
    s.releaseHeld = .ok s' ∧ Conserved loafDefinitions s' := by
  have hguard : Run.Guarded step (fun s op => s.Releases op ∧ s.stepKeeps op = true)
      (init loafDefinitions) loafOps := by decide +kernel
  have hend : (Run.run step (init loafDefinitions) loafOps).toOption.any
      (fun result => result.1.refersToOlder) = true := by decide +kernel
  cases hrun : Run.run step (init loafDefinitions) loafOps with
  | error e =>
      rw [hrun] at hend
      cases hend
  | ok result =>
      obtain ⟨s, rs⟩ := result
      rw [hrun] at hend
      have hacyclic := acyclic_of_refersToOlder (run_keeps hrun hguard).1 hend
      obtain ⟨s', hrelease, hconserved⟩ :=
        references_conserved loafDefinitions loafOps s rs hrun hguard hacyclic
      exact ⟨s, s', ⟨rs, rfl⟩, hrelease, hconserved⟩

/-- A class and its parent. -/
def ryeDefinitions : List ClassDefinition :=
  [⟨"Loaf".toList, none, [], 1⟩, ⟨"Rye".toList, some 0, [], 1⟩]

/-- **An instance of a class with a parent leaves the parent with a reference too many.** -/
theorem rye_not_conserved : ∃ s s',
    (∃ rs, Run.run step (init ryeDefinitions)
      [.classCreateInstance "Rye".toList none [] []] = .ok (s, rs)) ∧
    s.heap.Acyclic ObjectBody.children ∧ s.releaseHeld = .ok s' ∧
      ¬ Conserved ryeDefinitions s' := by
  have hend : (Run.run step (init ryeDefinitions)
      [.classCreateInstance "Rye".toList none [] []]).toOption.any (fun result =>
        result.1.refersToOlder && result.1.definitions.map ClassDefinition.refcount == [2, 1]) =
          true := by decide +kernel
  cases hrun : Run.run step (init ryeDefinitions)
      [.classCreateInstance "Rye".toList none [] []] with
  | error e =>
      rw [hrun] at hend
      cases hend
  | ok result =>
      obtain ⟨s, rs⟩ := result
      rw [hrun] at hend
      obtain ⟨holder, hcounts⟩ := (Bool.and_eq_true _ _).mp hend
      obtain ⟨lost, hs⟩ := run_accounted hrun (by decide +kernel)
      obtain ⟨h, hrelease, -⟩ := hs.releaseHeld
      refine ⟨s, _, ⟨rs, rfl⟩, acyclic_of_refersToOlder hs holder, hrelease, fun hconserved => ?_⟩
      have hsame : s.definitions.map ClassDefinition.refcount = [1, 1] := hconserved.definitions
      rw [hsame] at hcounts
      cases hcounts

end ObjectState

end BreadLang
