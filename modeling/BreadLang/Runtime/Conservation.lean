import BreadLang.Library.Outcome
import BreadLang.Runtime.ObjectRun
import Mathlib.Data.List.InsertIdx
import Mathlib.Data.List.Perm.Basic

/-!
# The references of the constructors and mutators of arrays

`Balanced S h owed` says that the counts of the heap are the references that objects hold
together with those in the list `owed`, and that the objects in `S` are strings.  Each
operation takes what is owed before it to what is owed after it: the values that it
returns are owed to the caller, and those that it is given stay owed.  A string never
becomes another object.
-/

namespace BreadLang

open RefCount

/-! ### Lists of references -/

section Lists

variable {α : Type} {f : α → List Ref} {l : List α} {i : ℕ} {a b : α} {x : Ref}

/-- Replacing an element exchanges the references that it holds. -/
theorem count_flatMap_set (h : l[i]? = some a) :
    ((l.set i b).flatMap f).count x + (f a).count x = (l.flatMap f).count x + (f b).count x := by
  induction l generalizing i with
  | nil => cases h
  | cons c l ih =>
      cases i with
      | zero =>
          cases h
          simp only [List.set_cons_zero, List.flatMap_cons, List.count_append]
          omega
      | succ i =>
          have hrest := ih (i := i) h
          simp only [List.set_cons_succ, List.flatMap_cons, List.count_append]
          omega

theorem count_flatMap_insertIdx (h : i ≤ l.length) :
    ((l.insertIdx i a).flatMap f).count x = (l.flatMap f).count x + (f a).count x := by
  have hperm := (List.perm_insertIdx a l h).flatMap_right f
  rw [hperm.count_eq, List.flatMap_cons, List.count_append]
  omega

theorem count_flatMap_eraseIdx (h : l[i]? = some a) :
    ((l.eraseIdx i).flatMap f).count x + (f a).count x = (l.flatMap f).count x := by
  obtain ⟨hlt, rfl⟩ := List.getElem?_eq_some_iff.mp h
  have hperm := (List.getElem_cons_eraseIdx_perm hlt).flatMap_right f
  rw [← hperm.count_eq, List.flatMap_cons, List.count_append]
  omega

@[simp] theorem refs_nil : HeapValue.nil.refs = [] := rfl

theorem valueRefs_singleton (v : HeapValue) : valueRefs [v] = v.refs :=
  List.append_nil _

theorem valueRefs_cons (v : HeapValue) (vs : List HeapValue) :
    valueRefs (v :: vs) = v.refs ++ valueRefs vs :=
  List.flatMap_cons

theorem valueRefs_append (vs ws : List HeapValue) :
    valueRefs (vs ++ ws) = valueRefs vs ++ valueRefs ws :=
  List.flatMap_append

end Lists

/-! ### Single references -/

/-- Whether an object is a string. -/
def ObjectBody.IsString : ObjectBody → Prop
  | .string _ => True
  | _ => False

/-- **The counts are accounted for**: by the objects, and by what is owed. -/
structure Balanced (S : Set Ref) (h : ObjectHeap) (owed : List Ref) : Prop where
  ledger : Ledger ObjectBody.children h (fun x => owed.count x) []
  strings : ∀ x ∈ S, x < h.size ∧ ∀ b, h.body x = some b → b.IsString

section References

variable {S : Set Ref} {h : ObjectHeap} {owed owed' rs : List Ref} {r : Ref}
  {b b' : ObjectBody} {v : HeapValue}

theorem Balanced.congr (hb : Balanced S h owed) (howed : ∀ x, owed'.count x = owed.count x) :
    Balanced S h owed' :=
  ⟨Ledger.congr hb.ledger howed, hb.strings⟩

/-- One more reference to an object. -/
def Retained (S : Set Ref) (h : ObjectHeap) (owed : List Ref) (h' : ObjectHeap) : Prop :=
  Balanced S h' owed ∧ h'.body = h.body

theorem objectRetain_spec (hb : Balanced S h owed) :
    Gives (h.objectRetain r) (Retained S h (r :: owed)) := by
  unfold ObjectHeap.objectRetain
  split
  · exact gives_error
  · rename_i husable
    split
    · exact gives_error
    · have hcount := hb.ledger.count_of_usable (Classical.not_not.mp husable)
      refine gives_ok ⟨⟨Ledger.retain hb.ledger hcount fun x => ?_, hb.strings⟩, rfl⟩
      rw [← List.count_append, List.count_append, Nat.add_comm, ← List.count_append]
      rfl

theorem valueClone_spec (hb : Balanced S h owed) :
    Gives (h.valueClone v) (Retained S h (v.refs ++ owed)) := by
  unfold ObjectHeap.valueClone HeapValue.refs
  cases v.ref? with
  | none => exact gives_ok ⟨hb, rfl⟩
  | some r => exact objectRetain_spec hb

/-- References that were owed have been released. -/
def Released (S : Set Ref) (h : ObjectHeap) (owed : List Ref) (h' : ObjectHeap) : Prop :=
  Balanced S h' owed ∧ Shrinks h h'

/-- The ledger before references that are owed are released. -/
theorem Balanced.due (hb : Balanced S h (rs ++ owed)) : Ledger ObjectBody.children h
    (fun x => owed.count x + (releases (rs.map Task.release)).count x)
    (frees (rs.map Task.release)) := by
  rw [releases_map, frees_map]
  refine Ledger.congr hb.ledger fun x => ?_
  rw [List.count_append]
  omega

/-- What is owed can be released. -/
theorem releaseRefs_returns (hb : Balanced S h (rs ++ owed)) :
    ∃ h', h.releaseRefs rs = .ok h' ∧ Released S h owed h' := by
  obtain ⟨h', hrun, hledger', hshrinks⟩ := hb.due.drain
  refine ⟨h', by rw [ObjectHeap.releaseRefs, hrun], ⟨hledger', fun x hx => ?_⟩, hshrinks⟩
  refine ⟨hshrinks.size ▸ (hb.strings x hx).1, fun b hbody => ?_⟩
  rcases hshrinks.body x with heq | hnone
  · exact (hb.strings x hx).2 b (heq ▸ hbody)
  · rw [hnone] at hbody
    cases hbody

theorem releaseRefs_spec (rs owed : List Ref) (hb : Balanced S h (rs ++ owed)) :
    Gives (h.releaseRefs rs) (Released S h owed) := by
  obtain ⟨h', hrun, hreleased⟩ := releaseRefs_returns hb
  intro h'' hrun'
  rw [hrun] at hrun'
  cases hrun'
  exact hreleased

theorem valueRelease_spec (owed : List Ref) (hb : Balanced S h (v.refs ++ owed)) :
    Gives (h.valueRelease v) (Released S h owed) :=
  releaseRefs_spec _ _ hb

/-- A new object takes over the references that it holds. -/
theorem create_spec (hb : Balanced S h (b.children ++ owed)) :
    Balanced S (h.create b).2 ((h.create b).1 :: owed) := by
  refine ⟨Ledger.alloc hb.ledger fun x => ?_, fun x hx => ?_⟩
  · simp only [ObjectHeap.create, List.count_cons, List.count_append, List.count_nil]
    omega
  · obtain ⟨hlt, hstring⟩ := hb.strings x hx
    refine ⟨Nat.lt_succ_of_lt hlt, fun b' hbody => hstring b' ?_⟩
    simpa [ObjectHeap.create, Heap.alloc, hlt.ne] using hbody

theorem body_create (h : ObjectHeap) (b : ObjectBody) :
    (h.create b).2.body (h.create b).1 = some b := by
  simp [ObjectHeap.create, Heap.alloc]

/-- A write to an object that is not a string exchanges the references that it holds. -/
theorem write_spec (owed' : List Ref) (hb : Balanced S h owed)
    (howed : ∀ b, h.body r = some b → ¬ b.IsString ∧ ∀ x,
      owed'.count x + b'.children.count x = owed.count x + b.children.count x) :
    Gives (h.write r b') fun h' => Balanced S h' owed' ∧ h'.body r = some b' := by
  unfold ObjectHeap.write
  cases hbody : h.body r with
  | none => exact gives_error
  | some b =>
      obtain ⟨hkind, hcount⟩ := howed b hbody
      refine gives_ok ⟨⟨Ledger.setBody hb.ledger hbody hcount, fun x hx => ?_⟩, ?_⟩
      · obtain ⟨hlt, hstring⟩ := hb.strings x hx
        have hne : x ≠ r := by
          rintro rfl
          exact hkind (hstring b hbody)
        refine ⟨hlt, fun b'' hbody'' => hstring b'' ?_⟩
        simpa [Heap.setBody, hne] using hbody''
      · simp [Heap.setBody]

theorem body_write_of_ne :
    Gives (h.write r b') fun h' => ∀ x, x ≠ r → h'.body x = h.body x := by
  unfold ObjectHeap.write
  split
  · exact gives_ok fun x hx => by simp [Heap.setBody, hx]
  · exact gives_error

/-- A release leaves an object as it is or takes it apart. -/
theorem body_of_released {h' : ObjectHeap} (hshrinks : Shrinks h h') (hbody : h.body r = some b)
    (hbody' : h'.body r = some b') : b' = b := by
  rcases hshrinks.body r with heq | hnone
  · rw [hbody', hbody] at heq
    exact Option.some.inj heq
  · rw [hbody'] at hnone
    cases hnone

/-- **Replacing the value of a slot** keeps the balance.  What the object held besides
the old value and does not hold any more is lost. -/
theorem replaceValue_spec (lost : List Ref) {emptied filled : ObjectBody} {old new : HeapValue}
    (hb : Balanced S h owed) (hkind : ¬ emptied.IsString)
    (hemptied : ∀ b, h.body r = some b → ¬ b.IsString ∧ ∀ x,
      emptied.children.count x + old.refs.count x + lost.count x = b.children.count x)
    (hfilled : ∀ x, filled.children.count x = emptied.children.count x + new.refs.count x) :
    Gives (h.replaceValue r emptied old new filled) fun h' => Balanced S h' (lost ++ owed) := by
  refine gives_bind (write_spec (old.refs ++ (lost ++ owed)) hb ?_) ?_
  · intro b hbody
    refine ⟨(hemptied b hbody).1, fun x => ?_⟩
    have hx := (hemptied b hbody).2 x
    simp only [List.count_append]
    omega
  rintro h₁ ⟨hb₁, hbody₁⟩
  refine gives_bind (valueRelease_spec _ hb₁) ?_
  rintro h₂ ⟨hb₂, hshrinks⟩
  refine gives_bind (valueClone_spec hb₂) ?_
  rintro h₃ ⟨hb₃, hsame⟩
  refine (write_spec (lost ++ owed) hb₃ ?_).mono fun _ h => h.1
  intro b hbody
  rw [hsame] at hbody
  rw [body_of_released hshrinks hbody₁ hbody]
  refine ⟨hkind, fun x => ?_⟩
  have hx := hfilled x
  simp only [List.count_append]
  omega

/-- **Replacing an element** of the values that an object is made of. -/
theorem replaceElement_spec (make : List HeapValue → ObjectBody) {vs : List HeapValue} {i : ℕ}
    {old : HeapValue} (hb : Balanced S h owed)
    (hmake : ∀ vs, ¬ (make vs).IsString ∧ (make vs).children = valueRefs vs)
    (hbody : h.body r = some (make vs)) (hold : vs[i]? = some old) (v : HeapValue) :
    Gives (h.replaceValue r (make (vs.set i .nil)) old v (make (vs.set i v))) fun h' =>
      Balanced S h' owed := by
  have hset : ∀ (w : HeapValue) (x : Ref), (valueRefs (vs.set i w)).count x + old.refs.count x =
      (valueRefs vs).count x + w.refs.count x := fun w x => count_flatMap_set hold
  have hnil := hset .nil
  have hnew := hset v
  simp only [refs_nil, List.count_nil] at hnil
  refine replaceValue_spec [] hb (hmake _).1 (fun b hb' => ?_) fun x => ?_
  · rw [hbody] at hb'
    cases hb'
    refine ⟨(hmake _).1, fun x => ?_⟩
    have hx := hnil x
    simp only [(hmake _).2, List.count_nil]
    omega
  · have hx := hnil x
    have hx' := hnew x
    simp only [(hmake _).2]
    omega

end References

/-! ### Arrays -/

section Arrays

variable {S : Set Ref} {h : ObjectHeap} {owed : List Ref} {r : Ref} {a a' : ArrayBody}
  {v : HeapValue}

theorem children_array (a : ArrayBody) :
    (ObjectBody.array a).children = a.items.flatMap HeapValue.refs := rfl

theorem getArray_spec : Gives (h.getArray r) fun a => h.body r = some (.array a) := by
  unfold ObjectHeap.getArray
  split
  · exact gives_ok ‹_›
  · exact gives_error

theorem growIfFull_items : Gives a.growIfFull fun a' => a'.items = a.items := by
  unfold ArrayBody.growIfFull
  split
  · exact gives_bind_any fun newCap => gives_pure rfl
  · exact gives_ok rfl

/-- A write to an array that has been retained in between exchanges its items. -/
theorem writeArray_spec (owed' : List Ref) (hb : Balanced S h owed)
    (hbody : h.body r = some (.array a))
    (howed : ∀ x, owed'.count x + (a'.items.flatMap HeapValue.refs).count x =
      owed.count x + (a.items.flatMap HeapValue.refs).count x) :
    Gives (h.write r (.array a')) fun h' => Balanced S h' owed' ∧ h'.body r = some (.array a') := by
  refine write_spec _ hb fun b hb' => ?_
  rw [hbody] at hb'
  cases hb'
  exact ⟨id, howed⟩

theorem arrayAppend_spec (hb : Balanced S h owed) (a : Option Ref) (v : HeapValue) :
    Gives (h.arrayAppend a v) fun result => Balanced S result.1 owed := by
  cases a with
  | none => exact gives_ok hb
  | some r =>
      refine gives_bind getArray_spec fun a hbody => ?_
      split
      · exact gives_pure hb
      refine gives_bind growIfFull_items fun a' hitems => ?_
      refine gives_bind (valueClone_spec hb) ?_
      rintro h₁ ⟨hb₁, hsame⟩
      refine gives_bind (writeArray_spec owed hb₁ (hsame ▸ hbody) fun x => ?_) ?_
      · have hadopted : a'.items = a.items := hitems
        simp only [hadopted, List.flatMap_append, List.flatMap_singleton, List.count_append]
        omega
      · rintro h₂ ⟨hb₂, -⟩
        exact gives_pure hb₂

theorem setItem_spec (hb : Balanced S h owed) (hbody : h.body r = some (.array a)) (i : ℕ)
    (v : HeapValue) : Gives (h.setItem r a i v) fun h' => Balanced S h' owed := by
  unfold ObjectHeap.setItem
  split
  · exact gives_error
  · rename_i old hold
    exact replaceElement_spec (fun vs => .array { a with items := vs }) hb
      (fun _ => ⟨id, rfl⟩) hbody hold v

theorem arraySet_spec (hb : Balanced S h owed) (a : Option Ref) (idx : ℤ) (v : HeapValue) :
    Gives (h.arraySet a idx v) fun result => Balanced S result.1 owed := by
  cases a with
  | none => exact gives_ok hb
  | some r =>
      refine gives_bind getArray_spec fun a hbody => ?_
      split
      · exact gives_pure hb
      split
      · exact gives_pure hb
      exact gives_bind (setItem_spec hb hbody _ v) fun h' hb' => gives_pure hb'

theorem arraySetSafe_spec (hb : Balanced S h owed) (a : Option Ref) (index : ℤ) (v : HeapValue) :
    Gives (h.arraySetSafe a index v) fun result => Balanced S result.1 owed := by
  cases a with
  | none => exact gives_error
  | some r =>
      refine gives_bind getArray_spec fun a hbody => ?_
      dsimp only
      split
      · exact gives_error
      split
      · exact gives_pure hb
      exact gives_bind (setItem_spec hb hbody _ v) fun h' hb' => gives_pure hb'

/-- The loop that fills a new array.  The induction is on what is left to store. -/
theorem storeItems_spec (vs : List HeapValue) (hb : Balanced S h owed)
    (hbody : h.body r = some (.array a)) :
    Gives (h.storeItems r a vs) fun h' => Balanced S h' owed := by
  induction vs generalizing h a with
  | nil => exact gives_ok hb
  | cons v vs ih =>
      refine gives_bind (valueClone_spec hb) ?_
      rintro h₁ ⟨hb₁, hsame⟩
      refine gives_bind (writeArray_spec owed hb₁ (hsame ▸ hbody) fun x => ?_) ?_
      · simp only [List.flatMap_append, List.flatMap_singleton, List.count_append]
        omega
      · rintro h₂ ⟨hb₂, hbody₂⟩
        exact ih hb₂ hbody₂

theorem newArray_spec (hb : Balanced S h owed) (capacity : ℤ) (elementType : VarType) :
    Balanced S (h.create (.array (.new capacity elementType))).2
      ((h.create (.array (.new capacity elementType))).1 :: owed) :=
  create_spec hb

theorem arrayFromLiteral_spec (hb : Balanced S h owed) (elements : List HeapValue) :
    Gives (h.arrayFromLiteral elements) fun result =>
      Balanced S result.2.1 (result.1.toList ++ owed) := by
  unfold ObjectHeap.arrayFromLiteral
  split
  · exact gives_ok hb
  · refine gives_bind (storeItems_spec elements (newArray_spec hb _ _) (body_create h _)) ?_
    intro h' hb'
    exact gives_pure hb'

theorem arrayRepeating_spec (hb : Balanced S h owed) (v : HeapValue) (count : ℤ) :
    Gives (h.arrayRepeating v count) fun result => Balanced S result.2 (result.1 :: owed) := by
  unfold ObjectHeap.arrayRepeating
  split
  · exact gives_error
  · refine gives_bind (storeItems_spec _ (newArray_spec hb _ _) (body_create h _)) ?_
    intro h' hb'
    exact gives_pure hb'

theorem arrayInsert_spec (hb : Balanced S h owed) (a : Option Ref) (v : HeapValue) (index : ℤ) :
    Gives (h.arrayInsert a v index) fun result => Balanced S result.1 owed := by
  cases a with
  | none => exact gives_error
  | some r =>
      refine gives_bind getArray_spec fun a hbody => ?_
      dsimp only
      split
      · exact gives_error
      rename_i hindex
      split
      · exact gives_pure hb
      refine gives_bind growIfFull_items fun a' hitems => ?_
      refine gives_bind (valueClone_spec hb) ?_
      rintro h₁ ⟨hb₁, hsame⟩
      have hadopted : a'.items = a.items := hitems
      have hlength : (a.resolve index).toNat ≤ a.items.length := by
        rw [ArrayBody.count] at hindex
        omega
      refine gives_bind (writeArray_spec owed hb₁ (hsame ▸ hbody) fun x => ?_) ?_
      · rw [hadopted, count_flatMap_insertIdx hlength, List.count_append]
        omega
      · rintro h₂ ⟨hb₂, -⟩
        exact gives_pure hb₂

theorem arrayRemoveAt_spec (hb : Balanced S h owed) (a : Option Ref) (index : ℤ) :
    Gives (h.arrayRemoveAt a index) fun result => Balanced S result.2 (result.1.refs ++ owed) := by
  cases a with
  | none => exact gives_error
  | some r =>
      refine gives_bind getArray_spec fun a hbody => ?_
      dsimp only
      split
      · exact gives_error
      split
      · exact gives_error
      rename_i v hv
      refine gives_bind (valueClone_spec hb) ?_
      rintro h₁ ⟨hb₁, hsame⟩
      have hnil := fun x => count_flatMap_set (f := HeapValue.refs) (b := .nil) (x := x) hv
      have herase := fun x => count_flatMap_eraseIdx (f := HeapValue.refs) (x := x) hv
      simp only [refs_nil, List.count_nil, Nat.add_zero] at hnil
      refine gives_bind (writeArray_spec (v.refs ++ (v.refs ++ owed)) hb₁ (hsame ▸ hbody)
        fun x => ?_) ?_
      · have hx := hnil x
        simp only [ArrayBody.setItem, List.count_append]
        omega
      rintro h₂ ⟨hb₂, hbody₂⟩
      refine gives_bind (valueRelease_spec _ hb₂) ?_
      rintro h₃ ⟨hb₃, hshrinks⟩
      refine gives_bind (write_spec (v.refs ++ owed) hb₃ fun b hb' => ?_) ?_
      · rw [body_of_released hshrinks hbody₂ hb']
        refine ⟨id, fun x => ?_⟩
        have hx := hnil x
        have hx' := herase x
        simp only [children_array, ArrayBody.setItem]
        omega
      · rintro h₄ ⟨hb₄, -⟩
        exact gives_pure hb₄

end Arrays

end BreadLang
