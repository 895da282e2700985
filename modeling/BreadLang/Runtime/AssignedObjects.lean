import BreadLang.Runtime.Conservation
import BreadLang.Runtime.ObjectVars

/-!
# References are conserved by an assignment

What `coerce_and_assign` of `var.c` has to do: store a value of the type of the variable
that denotes the one assigned, release the old one as the kind of object it is, and leave
every count the number of the references that there are.  `AssignReady` is when it does.

An array, a dictionary, an optional, a struct or an instance is released before the new
one is retained.  So the new object has to be held by something else than the variable,
and `Ledger.survives_iff` says what survives.
-/

namespace BreadLang

open RefCount

/-! ### Calls that return -/

/-- A call returns a value that satisfies a predicate, or the process aborts because a
count cannot grow. -/
def Completes {α : Type} (u : Exec α) (P : α → Prop) : Prop :=
  u = .error (.abort ObjectHeap.refcountOverflow) ∨ ∃ a, u = .ok a ∧ P a

section Completes

variable {α β : Type} {u : Exec α} {P Q : α → Prop}

theorem completes_ok {a : α} (h : P a) : Completes (.ok a) P :=
  .inr ⟨a, rfl, h⟩

theorem completes_ok_iff {a : α} : Completes (.ok a) P ↔ P a := by
  constructor
  · rintro (h | ⟨b, hb, h⟩)
    · cases h
    · cases hb
      exact h
  · exact completes_ok

theorem not_completes_undefined {e : UndefinedBehavior} :
    ¬ Completes (.error (.undefined e) : Exec α) P := by
  rintro (h | ⟨b, hb, -⟩)
  · cases h
  · cases hb

theorem completes_bind {f : α → Exec β} {R : β → Prop} (hu : Completes u P)
    (hf : ∀ a, P a → Completes (f a) R) : Completes (u >>= f) R := by
  rcases hu with rfl | ⟨a, rfl, ha⟩
  · exact .inl rfl
  · exact hf a ha

theorem Completes.mono (h : Completes u P) (hP : ∀ a, P a → Q a) : Completes u Q := by
  rcases h with h | ⟨a, ha, h⟩
  · exact .inl h
  · exact .inr ⟨a, ha, hP a h⟩

/-- A call that returns gives what is known of its values. -/
theorem Completes.and_gives (h : Completes u P) (hQ : Gives u Q) :
    Completes u fun a => P a ∧ Q a := by
  rcases h with h | ⟨a, ha, h⟩
  · exact .inl h
  · exact .inr ⟨a, ha, h, hQ a ha⟩

end Completes

/-! ### The specification -/

/-- What is stored in a variable of a type denotes the value that is assigned to it. -/
inductive Denotes (c : FloatConversions) (h : ObjectHeap) :
    VarType → HeapValue → HeapValue → Prop where
  | same {t : VarType} {v : HeapValue} (ht : t = v.type ∨ t = .typeNil) (hv : v ≠ .string none) :
      Denotes c h t v v
  | emptyString {t : VarType} {r : Ref} (ht : t = .typeString ∨ t = .typeNil)
      (hbody : h.body r = some (.string [])) : Denotes c h t (.string none) (.string (some r))
  | intToDouble (n : BreadInt) : Denotes c h .typeDouble (.int n) (.double (c.intToDouble n))
  | floatToDouble (f : FloatBits) :
      Denotes c h .typeDouble (.float f) (.double (c.floatToDouble f))
  | intToFloat (n : BreadInt) : Denotes c h .typeFloat (.int n) (.float (c.intToFloat n))
  | doubleToFloat (d : DoubleBits) :
      Denotes c h .typeFloat (.double d) (.float (c.doubleToFloat d))
  | doubleToInt {d : DoubleBits} {n : BreadInt} (hn : c.doublePart d = some n.val) :
      Denotes c h .typeInt (.double d) (.int n)
  | floatToInt {f : FloatBits} {n : BreadInt} (hn : c.floatPart f = some n.val) :
      Denotes c h .typeInt (.float f) (.int n)
  | nilToOptional {r : Ref} (hbody : h.body r = some (.optional none)) :
      Denotes c h .typeOptional .nil (.optional (some r))
  | toOptional {v : HeapValue} {r : Ref} (hv : v.type ≠ .typeNil ∧ v.type ≠ .typeOptional)
      (hbody : h.body r = some (.optional (some v))) :
      Denotes c h .typeOptional v (.optional (some r))
  | classToStruct (r : Option Ref) : Denotes c h .typeStruct (.class r) (.class r)

/-- **What a successful assignment does.**  `owed` are the references of everybody but the
variable. -/
structure Assigned (c : FloatConversions) (h : ObjectHeap) (owed : List Ref)
    (target : HeapVariable) (source : HeapValue) (out : ObjectHeap.Assignment) : Prop where
  fits : out.target.Matches out.heap
  denotes : Denotes c out.heap target.type source out.target.value
  released : out.released = target.value.ref?.map fun _ => target.type
  ledger : Ledger ObjectBody.children out.heap
    (fun x => (out.target.value.refs ++ owed).count x) []
  kept : ∀ x < h.size, out.heap.body x = h.body x ∨ out.heap.body x = none

/-- **What an assignment does**: it succeeds, or it fails and changes nothing. -/
def AssignsProperly (c : FloatConversions) (h : ObjectHeap) (owed : List Ref)
    (target : HeapVariable) (source : HeapValue) (u : Exec ObjectHeap.Assignment) : Prop :=
  Completes u fun out =>
    (out.success = true ∧ Assigned c h owed target source out) ∨ out = ⟨false, target, h, none⟩

/-- The integer part of a floating point number. -/
def HeapValue.integerPart (c : FloatConversions) : HeapValue → Option (Option ℤ)
  | .double d => some (c.doublePart d)
  | .float f => some (c.floatPart f)
  | _ => none

/-- **The conditions of an assignment.**  A number that becomes an integer fits an `int`; a
variable that holds a struct does not get an instance, or the process aborts because
another reference to the instance cannot be counted; and an object that takes the place
of one of its type is held without the reference of the variable, unless it is a string. -/
structure AssignReady (c : FloatConversions) (h : ObjectHeap) (owed : List Ref)
    (target : HeapVariable) (source : HeapValue) : Prop where
  number : target.type = .typeInt → ∀ part, source.integerPart c = some part → FitsInt part
  struct : target.type = .typeStruct → source.type = .typeClass → ∀ r,
    target.value.ref? = some r →
      h.count r ≠ 1 ∧ ∃ x, source.ref? = some x ∧ h.count x = 0xFFFFFFFF
  held : target.type = source.type → source.type ≠ .typeString → ∀ r, source.ref? = some r →
    h.Held ObjectBody.children (fun x => owed.count x) r

/-! ### References -/

section References

variable {S : Set Ref} {h h' : ObjectHeap} {owed rs : List Ref} {r : Ref} {old new : HeapValue}
  {kind : VarType}

theorem releaseRefs_nil (h : ObjectHeap) : h.releaseRefs [] = .ok h := by
  rw [ObjectHeap.releaseRefs, List.map_nil, drain]

/-- The objects that survive a release. -/
theorem releaseRefs_survives_iff (hb : Balanced S h (rs ++ owed))
    (hrun : h.releaseRefs rs = .ok h') :
    h'.count r ≠ 0 ↔ h.Held ObjectBody.children (fun x => owed.count x) r := by
  rw [ObjectHeap.releaseRefs] at hrun
  split at hrun
  · rename_i h₁ hdrain
    cases hrun
    exact hb.due.survives_iff hdrain
  · cases hrun

/-- A reference that is not the last one. -/
theorem releaseRefs_lower (hb : Balanced S h (r :: owed)) (hcount : h.count r ≠ 1) :
    h.releaseRefs [r] = .ok (h.lower r) := by
  have hzero : h.count r ≠ 0 := hb.ledger.count_ne_zero (r := r) (by simp)
  rw [ObjectHeap.releaseRefs, List.map_singleton, drain, dif_pos (hb.ledger.usable hzero),
    dif_neg hzero, if_neg hcount, drain]

theorem HeapValue.Valid.congr (hv : new.Valid h) (hbody : h'.body = h.body) : new.Valid h' := by
  intro r hr
  rw [hbody]
  exact hv r hr

theorem HeapValue.Valid.count_ne_zero (hv : new.Valid h) (hb : Balanced S h owed)
    (hr : new.ref? = some r) : h.count r ≠ 0 := by
  obtain ⟨b, hbody, -⟩ := hv r hr
  exact hb.ledger.count_of_body hbody

/-- The release of an object as what it is. -/
theorem releaseAs_eq (hold : old.Valid h) (hkind : old.ref? ≠ none → old.type = kind) :
    h.releaseAs kind old.ref? = h.valueRelease old := by
  rw [ObjectHeap.valueRelease, HeapValue.refs]
  cases hr : old.ref? with
  | none => exact (releaseRefs_nil h).symm
  | some r =>
      obtain ⟨b, hbody, hb⟩ := hold r hr
      have htype : b.type = kind := hb.trans (hkind (by simp [hr]))
      rw [ObjectHeap.releaseAs, hbody]
      dsimp only
      rw [if_neg fun h => h.1 htype]
      rfl

theorem releaseAs_returns (hb : Balanced S h (old.refs ++ owed)) (hold : old.Valid h)
    (hkind : old.ref? ≠ none → old.type = kind) :
    ∃ h', h.releaseAs kind old.ref? = .ok h' ∧ h.releaseRefs old.refs = .ok h' ∧
      Released S h owed h' := by
  obtain ⟨h', hrun, hreleased⟩ := releaseRefs_returns hb
  exact ⟨h', (releaseAs_eq hold hkind).trans hrun, hrun, hreleased⟩

theorem objectRetain_completes (hb : Balanced S h owed) (hr : h.count r ≠ 0) :
    Completes (h.objectRetain r) (Retained S h (r :: owed)) := by
  have hreturns : Completes (h.objectRetain r) fun _ => True := by
    rw [ObjectHeap.objectRetain, if_neg (not_not_intro (hb.ledger.usable hr))]
    split
    · exact .inl rfl
    · exact completes_ok trivial
  exact (hreturns.and_gives (objectRetain_spec hb)).mono fun _ h => h.2

/-- An object that has been destroyed cannot be retained. -/
theorem objectRetain_undefined (hb : Balanced S h owed) (hr : r < h.size)
    (hcount : h.count r = 0) : h.objectRetain r = .error (.undefined .useAfterFree) := by
  have hreturned := hb.ledger.returned_of_count hr hcount
  have hnot : ¬ h.Usable r := by
    intro husable
    rw [husable.2] at hreturned
    cases hreturned
  rw [ObjectHeap.objectRetain, if_pos hnot]

theorem valueClone_completes (hb : Balanced S h owed)
    (hnew : ∀ r, new.ref? = some r → h.count r ≠ 0) :
    Completes (h.valueClone new) (Retained S h (new.refs ++ owed)) := by
  unfold ObjectHeap.valueClone HeapValue.refs
  cases hr : new.ref? with
  | none => exact completes_ok ⟨hb, rfl⟩
  | some r => exact objectRetain_completes hb (hnew r hr)

/-- No object has become another one. -/
def BodiesKept (h h' : ObjectHeap) : Prop :=
  ∀ x < h.size, h'.body x = h.body x ∨ h'.body x = none

theorem BodiesKept.refl (h : ObjectHeap) : BodiesKept h h :=
  fun _ _ => .inl rfl

theorem BodiesKept.shrinks {h'' : ObjectHeap} (hkept : BodiesKept h h') (hshrinks : Shrinks h' h'') :
    BodiesKept h h'' := by
  intro x hx
  rcases hshrinks.body x with heq | hnone
  · rw [heq]
    exact hkept x hx
  · exact .inr hnone

theorem BodiesKept.congr {h'' : ObjectHeap} (hkept : BodiesKept h h') (hbody : h''.body = h'.body) :
    BodiesKept h h'' := by
  intro x hx
  rw [hbody]
  exact hkept x hx

/-- **Replacing an object** by one that is held without it. -/
theorem replaceObject_completes (hb : Balanced S h (old.refs ++ owed)) (hold : old.Valid h)
    (hkind : old.ref? ≠ none → old.type = kind)
    (hheld : ∀ r, new.ref? = some r → h.Held ObjectBody.children (fun x => owed.count x) r) :
    Completes (h.replaceObject kind old.ref? new) fun h' =>
      Balanced S h' (new.refs ++ owed) ∧ BodiesKept h h' := by
  obtain ⟨h₁, hrun, hrelease, hb₁, hshrinks⟩ := releaseAs_returns hb hold hkind
  rw [ObjectHeap.replaceObject, hrun]
  refine (valueClone_completes hb₁ fun r hr => ?_).mono fun h₂ hretained => ?_
  · exact (releaseRefs_survives_iff hb hrelease).mpr (hheld r hr)
  · exact ⟨hretained.1, ((BodiesKept.refl h).shrinks hshrinks).congr hretained.2⟩

/-- An object that only the old one held is destroyed before it is retained. -/
theorem replaceObject_undefined (hb : Balanced S h (old.refs ++ owed)) (hold : old.Valid h)
    (hkind : old.ref? ≠ none → old.type = kind) (hnew : new.Valid h) (hr : new.ref? = some r)
    (hheld : ¬ h.Held ObjectBody.children (fun x => owed.count x) r) :
    h.replaceObject kind old.ref? new = .error (.undefined .useAfterFree) := by
  obtain ⟨h₁, hrun, hrelease, hb₁, hshrinks⟩ := releaseAs_returns hb hold hkind
  have hcount : h₁.count r = 0 :=
    Classical.not_not.mp (mt (releaseRefs_survives_iff hb hrelease).mp hheld)
  have hlt : r < h₁.size := by
    rw [hshrinks.size]
    exact (hb.ledger.usable (hnew.count_ne_zero hb hr)).1
  have hclone : h₁.valueClone new = .error (.undefined .useAfterFree) := by
    rw [ObjectHeap.valueClone, hr]
    exact objectRetain_undefined hb₁ hlt hcount
  rw [ObjectHeap.replaceObject, hrun]
  exact hclone

/-- **Replacing a string.**  The new one is retained first. -/
theorem replaceString_completes (new : HeapValue) (hb : Balanced S h (old.refs ++ owed))
    (hold : old.Valid h) (hkind : old.ref? ≠ none → old.type = .typeString)
    (hnew : ∀ r, new.ref? = some r → h.count r ≠ 0) :
    Completes (h.replaceString old.ref? new.ref?) fun result =>
      Balanced S result.2 (result.1 :: owed) ∧ BodiesKept h result.2 ∧
        (∀ s, new.ref? = some s → result.1 = s) ∧
          (new.ref? = none → result.2.body result.1 = some (.string [])) := by
  unfold ObjectHeap.replaceString
  cases hr : new.ref? with
  | some s =>
      refine completes_bind (objectRetain_completes hb (hnew s hr)) ?_
      rintro h₁ ⟨hb₁, hsame⟩
      have hmoved : Balanced S h₁ (old.refs ++ (s :: owed)) := by
        refine hb₁.congr fun x => ?_
        simp only [List.count_append, List.count_cons]
        omega
      obtain ⟨h₂, hrun, -, hb₂, hshrinks⟩ :=
        releaseAs_returns hmoved (hold.congr hsame) hkind
      rw [hrun]
      refine completes_ok ⟨hb₂, ((BodiesKept.refl h).congr hsame).shrinks hshrinks, ?_, ?_⟩
      · rintro _ ⟨⟩
        rfl
      · rintro ⟨⟩
  | none =>
      have hcreated : Balanced S (h.stringNew []).2 ((h.stringNew []).1 :: (old.refs ++ owed)) :=
        create_spec hb
      have hbody := body_create h (.string [])
      have hsame : ∀ x < h.size, (h.stringNew []).2.body x = h.body x := by
        intro x hx
        simp [ObjectHeap.stringNew, ObjectHeap.create, Heap.alloc, hx.ne]
      have hvalid : old.Valid (h.stringNew []).2 := by
        intro r hold'
        obtain ⟨b, hb', htype⟩ := hold r hold'
        exact ⟨b, (hsame r (hb.ledger.lt_size hb')).trans hb', htype⟩
      have hmoved : Balanced S (h.stringNew []).2 (old.refs ++ ((h.stringNew []).1 :: owed)) := by
        refine hcreated.congr fun x => ?_
        simp only [List.count_append, List.count_cons]
        omega
      obtain ⟨h₂, hrun, -, hb₂, hshrinks⟩ := releaseAs_returns hmoved hvalid hkind
      dsimp only
      rw [hrun]
      refine completes_ok ⟨hb₂, ?_, ?_, fun _ => ?_⟩
      · exact BodiesKept.shrinks (fun x hx => .inl (hsame x hx)) hshrinks
      · rintro _ ⟨⟩
      · rw [hb₂.ledger.body_of_shrinks hshrinks (r := (h.stringNew []).1) (by simp)]
        exact hbody

theorem valueClone_size : Gives (h.valueClone new) fun h' => h'.size = h.size := by
  unfold ObjectHeap.valueClone ObjectHeap.objectRetain
  split
  · split
    · exact gives_error
    split
    · exact gives_error
    · exact gives_ok rfl
  · exact gives_ok rfl

/-- An object has been added to a heap. -/
structure Extended (h : ObjectHeap) (r : Ref) (b : ObjectBody) (h' : ObjectHeap) : Prop where
  size : h.size ≤ h'.size
  same : ∀ x < h.size, h'.body x = h.body x
  body : h'.body r = some b

/-- **A new optional** holds a clone of the value. -/
theorem optionalNewSome_completes {v : HeapValue} (hb : Balanced S h owed) (hv : v.Valid h) :
    Completes (h.optionalNewSome v) fun result =>
      Balanced S result.2 (result.1 :: owed) ∧
        Extended h result.1 (.optional (some v)) result.2 := by
  have hnew : Balanced S (h.create (.optional (some .nil))).2
      ((h.create (.optional (some .nil))).1 :: owed) := create_spec hb
  have hsame : ∀ x < h.size, (h.create (.optional (some .nil))).2.body x = h.body x := by
    intro x hx
    simp [ObjectHeap.create, Heap.alloc, hx.ne]
  refine completes_bind ((valueClone_completes hnew fun r hr => ?_).and_gives valueClone_size) ?_
  · obtain ⟨b, hbody, -⟩ := hv r hr
    exact hnew.ledger.count_of_body ((hsame r (hb.ledger.lt_size hbody)).trans hbody)
  rintro h₁ ⟨⟨hb₁, hsame₁⟩, hsize₁⟩
  have hbody₁ : h₁.body (h.create (.optional (some .nil))).1 = some (.optional (some .nil)) := by
    rw [hsame₁]
    exact body_create h _
  have hwrite : h₁.write (h.create (.optional (some .nil))).1 (.optional (some v)) =
      .ok (h₁.setBody (h.create (.optional (some .nil))).1 (.optional (some v))) := by
    rw [ObjectHeap.write, hbody₁]
  obtain ⟨hb₂, hbody₂⟩ := write_spec
    ((h.create (.optional (some .nil))).1 :: owed) hb₁ (fun b hb => by
      cases hbody₁.symm.trans hb
      refine ⟨id, fun x => ?_⟩
      simp only [ObjectBody.children, Option.toList_some, valueRefs_singleton, refs_nil,
        List.count_append, List.count_nil]
      omega) _ hwrite
  refine completes_bind (P := fun h₂ => h₂ = _) (.inr ⟨_, hwrite, rfl⟩) ?_
  rintro _ rfl
  refine completes_ok ⟨hb₂, (Nat.le_succ h.size).trans hsize₁.symm.le, fun x hx => ?_, hbody₂⟩
  have hne : x ≠ (h.create (.optional (some .nil))).1 := hx.ne
  exact (body_write_of_ne _ hwrite x hne).trans ((congrFun hsame₁ x).trans (hsame x hx))

end References

/-! ### What is stored -/

/-- The value that is stored: a string that is `NULL` becomes an empty string. -/
def Stored (h : ObjectHeap) (value stored : HeapValue) : Prop :=
  (value ≠ .string none ∧ stored = value) ∨
    (value = .string none ∧ ∃ r, stored = .string (some r) ∧ h.body r = some (.string []))

/-- What the switch does with a value of the type of the variable. -/
structure StoreDone (S : Set Ref) (h : ObjectHeap) (owed : List Ref) (old value : HeapValue)
    (out : ObjectHeap.Assignment) : Prop where
  success : out.success = true
  type : out.target.type = value.type
  stored : Stored out.heap value out.target.value
  released : out.released = old.ref?.map fun _ => value.type
  balanced : Balanced S out.heap (out.target.value.refs ++ owed)
  kept : BodiesKept h out.heap

section Store

variable {S : Set Ref} {h h' : ObjectHeap} {owed : List Ref} {old value : HeapValue}
  {o : Option Ref}

/-- The values of the type refer to no object. -/
def VarType.isPlain : VarType → Bool
  | .typeNil | .typeInt | .typeBool | .typeFloat | .typeDouble => true
  | _ => false

theorem HeapValue.ref?_of_isPlain (hplain : value.type.isPlain = true) : value.ref? = none := by
  cases value <;> first | rfl | cases hplain

/-- A value without an object is copied. -/
theorem store_plain (hb : Balanced S h (old.refs ++ owed)) (hold : old.ref? = none)
    (hvalue : value.ref? = none) (hstring : value ≠ .string none) :
    StoreDone S h owed old value ⟨true, ⟨value.type, value⟩, h, none⟩ where
  success := rfl
  type := rfl
  stored := .inl ⟨hstring, rfl⟩
  released := by
    rw [hold]
    rfl
  balanced := by
    rw [HeapValue.refs, hold] at hb
    rw [HeapValue.refs, hvalue]
    exact hb
  kept := .refl h

theorem store_object (hb : Balanced S h (old.refs ++ owed)) (hold : old.Valid h)
    (hkind : old.ref? ≠ none → old.type = value.type) (hstring : value ≠ .string none)
    (hheld : ∀ r, value.ref? = some r → h.Held ObjectBody.children (fun x => owed.count x) r) :
    Completes
      (do
        let h ← h.replaceObject value.type old.ref? value
        return (⟨true, ⟨value.type, value⟩, h, old.ref?.map fun _ => value.type⟩ :
          ObjectHeap.Assignment))
      (StoreDone S h owed old value) := by
  refine completes_bind (replaceObject_completes hb hold hkind hheld) ?_
  rintro h' ⟨hb', hkept⟩
  exact completes_ok ⟨rfl, rfl, .inl ⟨hstring, rfl⟩, rfl, hb', hkept⟩

theorem store_string {r : Option Ref} (hb : Balanced S h (old.refs ++ owed)) (hold : old.Valid h)
    (hkind : old.ref? ≠ none → old.type = .typeString)
    (hvalue : HeapValue.Valid h (.string r)) :
    Completes ((⟨.typeString, .string r, h, o⟩ : ObjectHeap.Coerced).store old)
      (StoreDone S h owed old (.string r)) := by
  refine completes_bind (replaceString_completes (.string r) hb hold hkind
    fun _ hr => hvalue.count_ne_zero hb hr) ?_
  rintro ⟨s, h'⟩ ⟨hb', hkept, hsome, hnone⟩
  refine completes_ok ⟨rfl, rfl, ?_, rfl, hb', hkept⟩
  cases r with
  | none => exact .inr ⟨rfl, s, rfl, hnone rfl⟩
  | some r =>
      cases hsome r rfl
      exact .inl ⟨by simp, rfl⟩

/-- The cases of the switch for objects that are not strings. -/
theorem store_eq {r : Ref} (hstring : value.type ≠ .typeString) (hr : value.ref? = some r) :
    (⟨value.type, value, h, o⟩ : ObjectHeap.Coerced).store old = (do
      let h ← h.replaceObject value.type old.ref? value
      return ⟨true, ⟨value.type, value⟩, h, old.ref?.map fun _ => value.type⟩) := by
  cases value <;> first | rfl | exact absurd rfl hstring | cases hr

/-- **The switch** stores a value of the type of the variable.  One case for each type. -/
theorem store_completes (value : HeapValue) (o : Option Ref)
    (hb : Balanced S h (old.refs ++ owed)) (hold : old.Valid h)
    (htype : old.type = value.type ∨ old.ref? = none ∧ value.type ≠ .typeNil)
    (hvalue : value.Valid h)
    (hheld : value.type ≠ .typeString → ∀ r, value.ref? = some r →
      h.Held ObjectBody.children (fun x => owed.count x) r) :
    Completes ((⟨value.type, value, h, o⟩ : ObjectHeap.Coerced).store old)
      (StoreDone S h owed old value) := by
  have hkind : old.ref? ≠ none → old.type = value.type := fun hne =>
    htype.resolve_right fun h => hne h.1
  have hplain : value.type.isPlain = true → old.ref? = none := by
    intro hplain
    rcases htype with htype | ⟨hnone, -⟩
    · exact HeapValue.ref?_of_isPlain (htype ▸ hplain)
    · exact hnone
  cases value with
  | nil =>
      rcases htype with htype | ⟨-, hne⟩
      · cases old with
        | nil => exact completes_ok (store_plain hb rfl rfl (by simp))
        | _ => cases htype
      · exact absurd rfl hne
  | int n => exact completes_ok (store_plain hb (hplain rfl) rfl (by simp))
  | bool b => exact completes_ok (store_plain hb (hplain rfl) rfl (by simp))
  | float f => exact completes_ok (store_plain hb (hplain rfl) rfl (by simp))
  | double d => exact completes_ok (store_plain hb (hplain rfl) rfl (by simp))
  | string r => exact store_string hb hold hkind hvalue
  | array r => exact store_object hb hold hkind (by simp) (hheld (by simp [HeapValue.type]))
  | dict r => exact store_object hb hold hkind (by simp) (hheld (by simp [HeapValue.type]))
  | optional r => exact store_object hb hold hkind (by simp) (hheld (by simp [HeapValue.type]))
  | struct r => exact store_object hb hold hkind (by simp) (hheld (by simp [HeapValue.type]))
  | «class» r => exact store_object hb hold hkind (by simp) (hheld (by simp [HeapValue.type]))

end Store

/-! ### Coercions -/

/-- The number fits, when it is to become an integer. -/
def NumberFits (c : FloatConversions) (type : VarType) (source : HeapValue) : Prop :=
  type = .typeInt → ∀ part, source.integerPart c = some part → FitsInt part

section Coercions

variable {c : FloatConversions} {type : VarType} {source : HeapValue} {part : Option ℤ}

theorem castToInt_of_fits (hfits : FitsInt part) :
    ∃ n, castToInt part = .ok n ∧ part = some n.val := by
  obtain ⟨n, rfl, hlow, hhigh⟩ := hfits
  refine ⟨.wrap n, by rw [castToInt, if_pos ⟨hlow, hhigh⟩], ?_⟩
  have hval : n.bmod (2 ^ 64) = n := Int.bmod_eq_of_le (by omega) (by omega)
  exact congrArg some hval.symm

theorem castToInt_of_not_fits (hfits : ¬ FitsInt part) :
    castToInt part = .error (.undefined .signedOverflow) := by
  cases part with
  | none => rfl
  | some n => rw [castToInt, if_neg fun h => hfits ⟨n, rfl, h⟩]

/-- What a numeric coercion gives: a number of the type, undefined behaviour, or nothing. -/
inductive NumericOutcome (c : FloatConversions) (type : VarType) (source : HeapValue) :
    Exec (Option HeapValue) → Prop where
  | number {value : HeapValue} (htype : value.type = type) (hplain : type.isPlain = true)
      (hdenotes : ∀ h, Denotes c h type source value) (hfits : NumberFits c type source) :
      NumericOutcome c type source (.ok (some value))
  | undefined (hfits : ¬ NumberFits c type source) :
      NumericOutcome c type source (.error (.undefined .signedOverflow))
  | other (hfits : NumberFits c type source) : NumericOutcome c type source (.ok none)

theorem numericOutcome_cast (hpart : source.integerPart c = some part)
    (hdenotes : ∀ n : BreadInt, part = some n.val → ∀ h, Denotes c h .typeInt source (.int n)) :
    NumericOutcome c .typeInt source (do return some (.int (← castToInt part))) := by
  by_cases hfits : FitsInt part
  · obtain ⟨n, hcast, hn⟩ := castToInt_of_fits hfits
    rw [hcast]
    refine .number rfl rfl (hdenotes n hn) fun _ part' hpart' => ?_
    rw [hpart] at hpart'
    cases hpart'
    exact hfits
  · rw [castToInt_of_not_fits hfits]
    exact .undefined fun h => hfits (h rfl part hpart)

theorem tryNumericCoercion_outcome (c : FloatConversions) (type : VarType) (source : HeapValue) :
    NumericOutcome c type source (c.tryNumericCoercion type source) := by
  unfold FloatConversions.tryNumericCoercion
  split
  · exact .number rfl rfl (fun h => .intToDouble _) (fun h => nomatch h)
  · exact .number rfl rfl (fun h => .floatToDouble _) (fun h => nomatch h)
  · exact .number rfl rfl (fun h => .intToFloat _) (fun h => nomatch h)
  · exact .number rfl rfl (fun h => .doubleToFloat _) (fun h => nomatch h)
  · exact numericOutcome_cast rfl fun n hn h => .doubleToInt hn
  · exact numericOutcome_cast rfl fun n hn h => .floatToInt hn
  · rename_i hdouble hfloat
    refine .other fun htype part hpart => ?_
    cases source with
    | double d => exact absurd rfl (hdouble d htype)
    | float f => exact absurd rfl (hfloat f htype)
    | _ => cases hpart

end Coercions

/-! ### Assignments -/

section Assignments

variable {c : FloatConversions} {h : ObjectHeap} {owed : List Ref} {target : HeapVariable}
  {source : HeapValue}

/-- An assignment that has something to store. -/
theorem coerceAndAssign_of_coerce {new : ObjectHeap.Coerced}
    (hcoerce : h.coerce c target.type source = .ok (some new)) :
    h.coerceAndAssign c target source = (do
      let out ← new.store target.value
      return { out with heap := ← out.heap.releaseAs .typeOptional new.newOptional }) := by
  rw [ObjectHeap.coerceAndAssign, hcoerce]
  rfl

/-- Without a new optional the switch is the last part. -/
theorem coerceAndAssign_of_store {type : VarType} {value : HeapValue}
    (hcoerce : h.coerce c target.type source = .ok (some ⟨type, value, h, none⟩)) :
    h.coerceAndAssign c target source =
      (⟨type, value, h, none⟩ : ObjectHeap.Coerced).store target.value := by
  rw [coerceAndAssign_of_coerce hcoerce]
  cases (⟨type, value, h, none⟩ : ObjectHeap.Coerced).store target.value <;> rfl

/-- What holds an object when the variable holds none. -/
theorem held_of_valid (hb : Balanced ∅ h owed) (hvalid : source.Valid h) {r : Ref}
    (hr : source.ref? = some r) : h.Held ObjectBody.children (fun x => owed.count x) r :=
  (releaseRefs_survives_iff (show Balanced ∅ h ([] ++ owed) from hb) (releaseRefs_nil h)).mp (hvalid.count_ne_zero hb hr)

/-- A value that has been stored is of its type. -/
theorem Assigned.of_store {value : HeapValue} {out : ObjectHeap.Assignment}
    (hb : Balanced ∅ h (target.value.refs ++ owed)) (hvalue : value.Valid h)
    (hdone : StoreDone ∅ h owed target.value value out)
    (hkind : target.value.ref? ≠ none → value.type = target.type)
    (hdenotes : ∀ h' stored, Stored h' value stored → Denotes c h' target.type source stored) :
    Assigned c h owed target source out := by
  have hlive : ∀ r, out.target.value.ref? = some r → out.heap.body r ≠ none := by
    intro r hr hnone
    refine hdone.balanced.ledger.count_ne_zero (r := r) ?_
      ((hdone.balanced.ledger.body_iff r).mp hnone)
    simp [HeapValue.refs, hr]
  refine ⟨⟨?_, ?_⟩, hdenotes _ _ hdone.stored, ?_, hdone.balanced.ledger, hdone.kept⟩
  · rw [hdone.type]
    rcases hdone.stored with ⟨-, hstored⟩ | ⟨rfl, r, hstored, -⟩
    · rw [hstored]
    · rw [hstored]
      rfl
  · intro r hr
    rcases hdone.stored with ⟨-, hstored⟩ | ⟨rfl, s, hstored, hbody⟩
    · have hr' : value.ref? = some r := hstored ▸ hr
      obtain ⟨b, hbody, hbtype⟩ := hvalue r hr'
      rcases hdone.kept r (hb.ledger.lt_size hbody) with heq | hnone
      · exact ⟨b, heq.trans hbody, hbtype.trans (congrArg HeapValue.type hstored.symm)⟩
      · exact absurd hnone (hlive r hr)
    · rw [hstored] at hr ⊢
      cases hr
      exact ⟨_, hbody, rfl⟩
  · rw [hdone.released]
    cases hr : target.value.ref? with
    | none => rfl
    | some r => rw [hkind (by simp [hr])]

/-- An assignment that stores a value without a new optional. -/
theorem assignsProperly_of_store {value : HeapValue}
    (hb : Balanced ∅ h (target.value.refs ++ owed)) (hm : target.Matches h)
    (hcoerce : h.coerce c target.type source = .ok (some ⟨value.type, value, h, none⟩))
    (htype : target.value.type = value.type ∨ target.value.ref? = none ∧ value.type ≠ .typeNil)
    (hvalue : value.Valid h)
    (hheld : value.type ≠ .typeString → ∀ r, value.ref? = some r →
      h.Held ObjectBody.children (fun x => owed.count x) r)
    (hdenotes : ∀ h' stored, Stored h' value stored → Denotes c h' target.type source stored) :
    AssignsProperly c h owed target source (h.coerceAndAssign c target source) := by
  rw [coerceAndAssign_of_store hcoerce]
  refine (store_completes value none hb hm.valid htype hvalue hheld).mono fun out hdone => .inl ⟨hdone.success, ?_⟩
  refine .of_store hb hvalue hdone (fun hne => ?_) hdenotes
  exact (htype.resolve_right fun h => hne h.1).symm.trans hm.type

theorem denotes_same {h' : ObjectHeap} {type : VarType} {stored : HeapValue}
    (htype : type = source.type ∨ type = .typeNil) (hstored : Stored h' source stored) :
    Denotes c h' type source stored := by
  rcases hstored with ⟨hne, rfl⟩ | ⟨rfl, r, rfl, hbody⟩
  · exact .same htype hne
  · exact .emptyString htype hbody

/-- **A variable of no type yet** takes every value. -/
theorem assigns_toNil (hb : Balanced ∅ h (target.value.refs ++ owed)) (hm : target.Matches h)
    (hs : source.Valid h) (hnil : target.type = .typeNil) :
    AssignsProperly c h owed target source (h.coerceAndAssign c target source) := by
  have hplain : target.value.ref? = none :=
    HeapValue.ref?_of_isPlain (by rw [hm.type, hnil]; rfl)
  refine assignsProperly_of_store hb hm (by rw [ObjectHeap.coerce, if_pos hnil]) ?_ hs
    (fun _ r hr => ?_) fun h' stored => denotes_same (.inr hnil)
  · by_cases hsource : source.type = .typeNil
    · exact .inl ((hm.type.trans hnil).trans hsource.symm)
    · exact .inr ⟨hplain, hsource⟩
  · rw [HeapValue.refs, hplain] at hb
    exact held_of_valid hb hs hr

/-- **A value of the type of the variable** is stored as it is. -/
theorem assigns_same (hb : Balanced ∅ h (target.value.refs ++ owed)) (hm : target.Matches h)
    (hs : source.Valid h) (hnil : target.type ≠ .typeNil) (hsame : target.type = source.type)
    (hheld : source.type ≠ .typeString → ∀ r, source.ref? = some r →
      h.Held ObjectBody.children (fun x => owed.count x) r) :
    AssignsProperly c h owed target source (h.coerceAndAssign c target source) := by
  refine assignsProperly_of_store hb hm ?_ (.inl (hm.type.trans hsame)) hs hheld
    fun h' stored => denotes_same (.inl hsame)
  rw [ObjectHeap.coerce, if_neg hnil, if_pos hsame, hsame]

/-- An object that only the variable holds is destroyed before it is stored. -/
theorem not_assigns_same (hb : Balanced ∅ h (target.value.refs ++ owed)) (hm : target.Matches h)
    (hs : source.Valid h) (hnil : target.type ≠ .typeNil) (hsame : target.type = source.type)
    (hstring : source.type ≠ .typeString) {r : Ref} (hr : source.ref? = some r)
    (hheld : ¬ h.Held ObjectBody.children (fun x => owed.count x) r) :
    ¬ AssignsProperly c h owed target source (h.coerceAndAssign c target source) := by
  have hundefined := replaceObject_undefined hb hm.valid
    (fun _ => hm.type.trans hsame) hs hr hheld
  have hstore : (⟨source.type, source, h, none⟩ : ObjectHeap.Coerced).store target.value =
      .error (.undefined .useAfterFree) := by
    rw [store_eq hstring hr, hundefined]
    rfl
  rw [coerceAndAssign_of_store (by rw [ObjectHeap.coerce, if_neg hnil, if_pos hsame, hsame]),
    hstore]
  exact not_completes_undefined

/-- A type other than that of the value, after the numeric coercion found nothing. -/
theorem coerce_of_other (hnil : target.type ≠ .typeNil) (hsame : target.type ≠ source.type)
    (hnumber : c.tryNumericCoercion target.type source = .ok none) :
    h.coerce c target.type source = (do
      match ← h.tryOptionalCoercion target.type source with
      | some (r, h) => return some ⟨target.type, .optional (some r), h, some r⟩
      | none =>
          if target.type = .typeStruct ∧ source.type = .typeClass then
            return some ⟨.typeClass, source, h, none⟩
          else return none) := by
  rw [ObjectHeap.coerce, if_neg hnil, if_neg hsame, hnumber]
  rfl

/-- **A number** is converted to the type of the variable. -/
theorem assigns_number {value : HeapValue} (hb : Balanced ∅ h (target.value.refs ++ owed))
    (hm : target.Matches h) (hnil : target.type ≠ .typeNil) (hsame : target.type ≠ source.type)
    (hnumber : c.tryNumericCoercion target.type source = .ok (some value))
    (htype : value.type = target.type) (hplain : target.type.isPlain = true)
    (hdenotes : ∀ h, Denotes c h target.type source value) :
    AssignsProperly c h owed target source (h.coerceAndAssign c target source) := by
  have hnone : value.ref? = none := HeapValue.ref?_of_isPlain (htype ▸ hplain)
  refine assignsProperly_of_store hb hm ?_ (.inl (hm.type.trans htype.symm)) ?_ ?_ ?_
  · rw [ObjectHeap.coerce, if_neg hnil, if_neg hsame, hnumber, htype]
    rfl
  · intro r hr
    rw [hnone] at hr
    cases hr
  · intro _ r hr
    rw [hnone] at hr
    cases hr
  · rintro h' stored (⟨-, rfl⟩ | ⟨rfl, -⟩)
    · exact hdenotes h'
    · rw [← htype] at hplain
      cases hplain

/-- The optional that a value becomes. -/
theorem tryOptionalCoercion_completes (hb : Balanced ∅ h owed) (hs : source.Valid h)
    (htype : target.type = .typeOptional) (hne : source.type ≠ .typeOptional) :
    Completes (h.tryOptionalCoercion target.type source) fun result => ∃ r h' inner,
      result = some (r, h') ∧ Balanced ∅ h' (r :: owed) ∧ Extended h r (.optional inner) h' ∧
        ∀ h'' : ObjectHeap, h''.body r = h'.body r →
          Denotes c h'' .typeOptional source (.optional (some r)) := by
  rw [ObjectHeap.tryOptionalCoercion, if_neg (not_not_intro htype)]
  by_cases hnil : source.type = .typeNil
  · rw [if_pos hnil]
    have hbody := body_create h (.optional none)
    refine completes_ok ⟨h.size, (h.create (.optional none)).2, none, rfl, create_spec hb,
      ⟨Nat.le_succ _, fun x hx => ?_, hbody⟩, fun h'' hsame => ?_⟩
    · simp [ObjectHeap.create, Heap.alloc, hx.ne]
    · cases source with
      | nil => exact .nilToOptional (hsame.trans hbody)
      | _ => cases hnil
  · rw [if_neg hnil, if_pos hne]
    refine completes_bind (P := fun result => Balanced ∅ result.2 (result.1 :: owed) ∧
      Extended h result.1 (.optional (some source)) result.2) (optionalNewSome_completes hb hs) ?_
    rintro ⟨r, h'⟩ ⟨hb', hext⟩
    exact completes_ok ⟨r, h', some source, rfl, hb', hext, fun h'' hsame =>
      .toOptional ⟨hnil, hne⟩ (hsame.trans hext.body)⟩

/-- **A value becomes an optional.**  The new optional has a second reference until the end. -/
theorem assigns_optional (hb : Balanced ∅ h (target.value.refs ++ owed)) (hm : target.Matches h)
    (hs : source.Valid h) (htype : target.type = .typeOptional)
    (hne : source.type ≠ .typeOptional) :
    AssignsProperly c h owed target source (h.coerceAndAssign c target source) := by
  have hnumber : c.tryNumericCoercion target.type source = .ok none := by
    rw [htype]
    rfl
  rw [AssignsProperly, ObjectHeap.coerceAndAssign, coerce_of_other (by simp [htype])
    (by rw [htype]; exact hne.symm) hnumber]
  refine completes_bind (P := fun new => ∃ r h' inner,
    new = some ⟨.typeOptional, .optional (some r), h', some r⟩ ∧
      Balanced ∅ h' (r :: (target.value.refs ++ owed)) ∧ Extended h r (.optional inner) h' ∧
        ∀ h'' : ObjectHeap, h''.body r = h'.body r →
          Denotes c h'' .typeOptional source (.optional (some r))) ?_ ?_
  · refine completes_bind (tryOptionalCoercion_completes (c := c) hb hs htype hne) ?_
    rintro _ ⟨r, h', inner, rfl, hb', hext, hdenotes⟩
    exact completes_ok ⟨r, h', inner, by rw [htype], hb', hext, hdenotes⟩
  rintro _ ⟨r, h', inner, rfl, hb', hext, hdenotes⟩
  have hold : target.value.Valid h' := by
    intro x hx
    obtain ⟨b, hbody, hbtype⟩ := hm.valid x hx
    exact ⟨b, (hext.same x (hb.ledger.lt_size hbody)).trans hbody, hbtype⟩
  have hnew : HeapValue.Valid h' (.optional (some r)) := by
    rintro _ ⟨⟩
    exact ⟨_, hext.body, rfl⟩
  have hmoved : Balanced ∅ h' (target.value.refs ++ (r :: owed)) := by
    refine hb'.congr fun x => ?_
    simp only [List.count_append, List.count_cons]
    omega
  refine completes_bind (store_completes (.optional (some r)) (some r) hmoved hold
    (.inl (hm.type.trans htype)) hnew fun _ x hx => ?_) ?_
  · cases hx
    exact ⟨{r}, rfl, fun y hy => .inl (by rw [hy]; simp)⟩
  rintro out hdone
  obtain ⟨-, hstored⟩ : _ ∧ out.target.value = .optional (some r) :=
    hdone.stored.resolve_right fun h => nomatch h.1
  have hb₁ := hdone.balanced
  rw [hstored] at hb₁
  have hbody₁ : out.heap.body r = h'.body r := by
    rcases hdone.kept r (hb'.ledger.lt_size hext.body) with heq | hnone
    · exact heq
    · refine absurd ((hb₁.ledger.body_iff r).mp hnone) (hb₁.ledger.count_ne_zero ?_)
      simp [HeapValue.refs, HeapValue.ref?]
  have hvalid₁ : HeapValue.Valid out.heap (.optional (some r)) := by
    rintro _ ⟨⟩
    exact ⟨_, hbody₁.trans hext.body, rfl⟩
  obtain ⟨h₂, hrun, -, hb₂, hshrinks⟩ := releaseAs_returns hb₁ hvalid₁ (fun _ => rfl)
  have hbody₂ : h₂.body r = h'.body r :=
    (hb₂.ledger.body_of_shrinks hshrinks (r := r) (by simp)).trans hbody₁
  have hrun' : out.heap.releaseAs .typeOptional (some r) = .ok h₂ := hrun
  refine completes_bind (P := fun h => h = h₂) (.inr ⟨h₂, hrun', rfl⟩) ?_
  rintro h₂ rfl
  refine completes_ok (.inl ⟨hdone.success, ⟨?_, ?_⟩, ?_, ?_, ?_, ?_⟩)
  · rw [hdone.type, hstored]
  · rw [hstored]
    rintro _ ⟨⟩
    exact ⟨_, hbody₂.trans hext.body, rfl⟩
  · rw [hstored, htype]
    exact hdenotes h₂ hbody₂
  · rw [hdone.released, htype]
    rfl
  · rw [hstored]
    exact hb₂.ledger
  · intro x hx
    rcases (hdone.kept.shrinks hshrinks) x (hx.trans_le hext.size) with heq | hnone
    · exact .inl (heq.trans (hext.same x hx))
    · exact .inr hnone

/-- Types that do not go together. -/
theorem assigns_mismatch (hnil : target.type ≠ .typeNil) (hsame : target.type ≠ source.type)
    (hnumber : c.tryNumericCoercion target.type source = .ok none)
    (hoptional : target.type ≠ .typeOptional)
    (hclass : ¬ (target.type = .typeStruct ∧ source.type = .typeClass)) :
    AssignsProperly c h owed target source (h.coerceAndAssign c target source) := by
  have hcoerce : h.coerce c target.type source = .ok none := by
    rw [coerce_of_other hnil hsame hnumber, ObjectHeap.tryOptionalCoercion, if_pos hoptional]
    exact if_neg hclass
  rw [ObjectHeap.coerceAndAssign, hcoerce]
  exact completes_ok (.inr rfl)

/-- An instance for a variable of a struct changes the type of the variable. -/
theorem coerce_struct (hstruct : target.type = .typeStruct) (hclass : source.type = .typeClass) :
    h.coerce c target.type source = .ok (some ⟨source.type, source, h, none⟩) := by
  rw [coerce_of_other (by simp [hstruct]) (by simp [hstruct, hclass]) (by rw [hstruct]; rfl),
    ObjectHeap.tryOptionalCoercion, if_pos (by simp [hstruct]), hclass]
  exact if_pos ⟨hstruct, rfl⟩

theorem assigns_struct_null (hb : Balanced ∅ h (target.value.refs ++ owed))
    (hm : target.Matches h) (hs : source.Valid h) (hstruct : target.type = .typeStruct)
    (hclass : source.type = .typeClass) (hnull : target.value.ref? = none) :
    AssignsProperly c h owed target source (h.coerceAndAssign c target source) := by
  refine assignsProperly_of_store hb hm (coerce_struct hstruct hclass)
    (.inr ⟨hnull, by simp [hclass]⟩) hs (fun _ r hr => ?_) fun h' stored hstored => ?_
  · rw [HeapValue.refs, hnull] at hb
    exact held_of_valid hb hs hr
  · rw [hstruct]
    cases source with
    | «class» x =>
        rcases hstored with ⟨-, rfl⟩ | ⟨heq, -⟩
        · exact .classToStruct x
        · cases heq
    | _ => cases hclass

/-- **A struct is released as an instance**, unless the process aborts after that. -/
theorem assigns_struct_iff (hb : Balanced ∅ h (target.value.refs ++ owed))
    (hm : target.Matches h) (hs : source.Valid h) (hstruct : target.type = .typeStruct)
    (hclass : source.type = .typeClass) {r : Ref} (hr : target.value.ref? = some r) :
    AssignsProperly c h owed target source (h.coerceAndAssign c target source) ↔
      h.count r ≠ 1 ∧ ∃ x, source.ref? = some x ∧ h.count x = 0xFFFFFFFF := by
  obtain ⟨b, hbody, hbtype⟩ := hm.valid r hr
  have hkind : b.type = .typeStruct := hbtype.trans (hm.type.trans hstruct)
  have hrefs : target.value.refs = [r] := by rw [HeapValue.refs, hr]; rfl
  rw [hrefs] at hb
  have hnot : ∀ h', ¬ AssignsProperly c h owed target source
      (.ok ⟨true, ⟨source.type, source⟩, h', some .typeClass⟩) := by
    intro h' hproper
    rcases completes_ok_iff.mp hproper with ⟨-, hassigned⟩ | heq
    · have hreleased := hassigned.released
      rw [hr, hstruct] at hreleased
      cases hreleased
    · cases heq
  have hstore : h.coerceAndAssign c target source = (do
      let h ← h.releaseAs .typeClass (some r)
      let h ← h.valueClone source
      return ⟨true, ⟨source.type, source⟩, h, some .typeClass⟩) := by
    rw [coerceAndAssign_of_store (coerce_struct hstruct hclass)]
    cases source with
    | «class» x =>
        show (do
          let h ← h.replaceObject .typeClass target.value.ref? (.class x)
          return (⟨true, ⟨.typeClass, .class x⟩, h,
            target.value.ref?.map fun _ => .typeClass⟩ : ObjectHeap.Assignment)) = _
        rw [hr, ObjectHeap.replaceObject, bind_assoc]
        rfl
    | _ => cases hclass
  rw [hstore, ObjectHeap.releaseAs, hbody]
  dsimp only
  by_cases hone : h.count r = 1
  · rw [if_pos ⟨by simp [hkind], hone⟩]
    exact iff_of_false not_completes_undefined fun h => h.1 hone
  rw [if_neg fun h => hone h.2, releaseRefs_lower hb hone]
  cases hx : source.ref? with
  | none =>
      have hclone : ObjectHeap.valueClone (h.lower r) source = .ok (h.lower r) := by
        rw [ObjectHeap.valueClone, hx]
      refine iff_of_false ?_ fun h => nomatch h.2
      show ¬ AssignsProperly c h owed target source (ObjectHeap.valueClone (h.lower r) source >>= _)
      rw [hclone]
      exact hnot _
  | some x =>
      obtain ⟨b', hbody', hbtype'⟩ := hs x hx
      have hne : x ≠ r := by
        rintro rfl
        cases hbody.symm.trans hbody'
        rw [hkind, hclass] at hbtype'
        cases hbtype'
      have hcount : (h.lower r).count x = h.count x := by simp [Heap.lower, hne]
      have husable : (h.lower r).Usable x := hb.ledger.usable (hb.ledger.count_of_body hbody')
      have hclone : ObjectHeap.valueClone (h.lower r) source = ObjectHeap.objectRetain (h.lower r) x := by
        rw [ObjectHeap.valueClone, hx]
      show AssignsProperly c h owed target source (ObjectHeap.valueClone (h.lower r) source >>= _) ↔ _
      rw [hclone, ObjectHeap.objectRetain, if_neg (not_not_intro husable), hcount]
      by_cases hmax : h.count x = 0xFFFFFFFF
      · rw [if_pos hmax]
        exact iff_of_true (.inl rfl) ⟨hone, x, rfl, hmax⟩
      · rw [if_neg hmax]
        refine iff_of_false (hnot _) ?_
        rintro ⟨-, y, ⟨⟩, hy⟩
        exact hmax hy

/-- The condition concerns a type that is not that of the value. -/
theorem assignReady_of_ne (hsame : target.type ≠ source.type)
    (hnumber : NumberFits c target.type source)
    (hstruct : target.type = .typeStruct → source.type = .typeClass → ∀ r,
      target.value.ref? = some r →
        h.count r ≠ 1 ∧ ∃ x, source.ref? = some x ∧ h.count x = 0xFFFFFFFF) :
    AssignReady c h owed target source :=
  ⟨hnumber, hstruct, fun heq => absurd heq hsame⟩

/-- **When `coerce_and_assign` does what it has to.**  One case for each way through it. -/
theorem assignsProperly_iff (hb : Ledger ObjectBody.children h
      (fun x => (target.value.refs ++ owed).count x) [])
    (hm : target.Matches h) (hs : source.Valid h) :
    AssignsProperly c h owed target source (h.coerceAndAssign c target source) ↔
      AssignReady c h owed target source := by
  replace hb : Balanced ∅ h (target.value.refs ++ owed) := ⟨hb, fun x hx => absurd hx id⟩
  by_cases hnil : target.type = .typeNil
  · refine iff_of_true (assigns_toNil hb hm hs hnil) ⟨?_, ?_, fun hsame _ r hr => ?_⟩
    · rw [hnil]
      rintro ⟨⟩
    · rw [hnil]
      rintro ⟨⟩
    · have hplain : source.type.isPlain = true := by
        rw [← hsame, hnil]
        rfl
      rw [HeapValue.ref?_of_isPlain hplain] at hr
      cases hr
  by_cases hsame : target.type = source.type
  · constructor
    · intro hproper
      refine ⟨fun htype part hpart => ?_, fun hstruct hclass => ?_, fun _ hstring r hr => ?_⟩
      · rw [hsame] at htype
        cases source with
        | int n => cases hpart
        | _ => cases htype
      · rw [hsame, hclass] at hstruct
        cases hstruct
      · by_contra hheld
        exact not_assigns_same hb hm hs hnil hsame hstring hr hheld hproper
    · intro hready
      exact assigns_same hb hm hs hnil hsame (hready.held hsame)
  have houtcome := tryNumericCoercion_outcome c target.type source
  generalize hnumber : c.tryNumericCoercion target.type source = u at houtcome
  cases houtcome with
  | number htype hplain hdenotes hfits =>
      refine iff_of_true (assigns_number hb hm hnil hsame hnumber htype hplain hdenotes) ?_
      refine assignReady_of_ne hsame hfits fun hstruct => ?_
      rw [hstruct] at hplain
      cases hplain
  | undefined hfits =>
      refine iff_of_false ?_ fun hready => hfits hready.number
      rw [ObjectHeap.coerceAndAssign, ObjectHeap.coerce, if_neg hnil, if_neg hsame, hnumber]
      exact not_completes_undefined
  | other hfits =>
      by_cases hoptional : target.type = .typeOptional
      · refine iff_of_true (assigns_optional hb hm hs hoptional fun h => hsame ?_) ?_
        · rw [hoptional, h]
        · refine assignReady_of_ne hsame hfits fun hstruct => ?_
          rw [hoptional] at hstruct
          cases hstruct
      by_cases hclass : target.type = .typeStruct ∧ source.type = .typeClass
      · obtain ⟨hstruct, hclass⟩ := hclass
        cases hr : target.value.ref? with
        | none =>
            refine iff_of_true (assigns_struct_null hb hm hs hstruct hclass hr) ?_
            refine assignReady_of_ne hsame hfits fun _ _ r hr' => ?_
            rw [hr] at hr'
            cases hr'
        | some r =>
            refine (assigns_struct_iff hb hm hs hstruct hclass hr).trans ?_
            constructor
            · intro hcount
              refine assignReady_of_ne hsame hfits fun _ _ r' hr' => ?_
              rw [hr] at hr'
              cases hr'
              exact hcount
            · intro hready
              exact hready.struct hstruct hclass r hr
      · exact iff_of_true (assigns_mismatch hnil hsame hnumber hoptional hclass)
          (assignReady_of_ne hsame hfits fun hstruct hclass' => absurd ⟨hstruct, hclass'⟩ hclass)

end Assignments

/-! ### An array on its own -/

/-- Conversions that are never called. -/
def zeroConversions : FloatConversions where
  intToDouble _ := ⟨0⟩
  floatToDouble _ := ⟨0⟩
  intToFloat _ := ⟨0⟩
  doubleToFloat _ := ⟨0⟩
  doublePart _ := none
  floatPart _ := none

/-- A heap of arrays without elements, each with one reference. -/
def emptyArrays : ℕ → ObjectHeap
  | 0 => .empty
  | n + 1 => (emptyArrays n).alloc (.array (.new 0 .typeInt))

/-- A variable that holds an array. -/
def arrayVariable (r : Ref) : HeapVariable where
  type := .typeArray
  value := .array (some r)

theorem emptyArrays_ledger (n : ℕ) : (emptyArrays n).size = n ∧
    Ledger ObjectBody.children (emptyArrays n) (fun x => (List.range n).count x) [] := by
  induction n with
  | zero => exact ⟨rfl, ledger_empty⟩
  | succ n ih =>
      obtain ⟨hsize, hledger⟩ := ih
      refine ⟨by rw [emptyArrays, Heap.alloc, hsize], hledger.alloc fun x => ?_⟩
      rw [List.range_succ, List.count_append, hsize]
      rfl

theorem emptyArrays_body (n r : ℕ) : (emptyArrays n).body r =
    if r < n then some (.array (.new 0 .typeInt)) else none := by
  induction n with
  | zero => rfl
  | succ n ih =>
      have hsize := (emptyArrays_ledger n).1
      by_cases hr : r = n
      · subst hr
        simp [emptyArrays, Heap.alloc, hsize]
      · have hlt : r < n + 1 ↔ r < n := by omega
        simp [emptyArrays, Heap.alloc, hsize, hr, hlt, ih]

theorem arrayVariable_matches {n r : ℕ} (hr : r < n) :
    (arrayVariable r).Matches (emptyArrays n) where
  type := rfl
  valid := by
    rintro _ ⟨⟩
    exact ⟨_, by rw [emptyArrays_body, if_pos hr], rfl⟩

/-- Another array takes the place of the one in a variable. -/
theorem otherArray_assigned : AssignsProperly zeroConversions (emptyArrays 2) [1]
    (arrayVariable 0) (.array (some 1))
    ((emptyArrays 2).coerceAndAssign zeroConversions (arrayVariable 0) (.array (some 1))) := by
  have hledger : Ledger ObjectBody.children (emptyArrays 2)
      (fun x => ((arrayVariable 0).value.refs ++ [1]).count x) [] := (emptyArrays_ledger 2).2
  refine (assignsProperly_iff hledger (arrayVariable_matches (by decide))
    (arrayVariable_matches (r := 1) (by decide)).valid).mpr ⟨?_, ?_, ?_⟩
  · rintro ⟨⟩
  · rintro ⟨⟩
  · rintro - - _ ⟨⟩
    exact ⟨{1}, rfl, fun x hx => .inl (by rw [hx]; decide)⟩

/-- **An array that is assigned to the only variable that holds it** is destroyed and then
retained. -/
theorem onlyArray_destroyed :
    Ledger ObjectBody.children (emptyArrays 1)
        (fun x => ((arrayVariable 0).value.refs ++ []).count x) [] ∧
      (arrayVariable 0).Matches (emptyArrays 1) ∧
      HeapValue.Valid (emptyArrays 1) (.array (some 0)) ∧
      ¬ AssignsProperly zeroConversions (emptyArrays 1) [] (arrayVariable 0) (.array (some 0))
        ((emptyArrays 1).coerceAndAssign zeroConversions (arrayVariable 0) (.array (some 0))) := by
  have hledger : Ledger ObjectBody.children (emptyArrays 1)
      (fun x => ((arrayVariable 0).value.refs ++ []).count x) [] := (emptyArrays_ledger 1).2
  have hm : (arrayVariable 0).Matches (emptyArrays 1) := arrayVariable_matches (by decide)
  refine ⟨hledger, hm, hm.valid, ?_⟩
  refine not_assigns_same (r := 0) ⟨hledger, fun x hx => absurd hx id⟩ hm hm.valid (by decide) rfl
    (by decide) rfl ?_
  rintro ⟨s, hmem, hs⟩
  obtain ⟨a, -, hholds⟩ := (hs 0 hmem).resolve_left (by decide)
  obtain ⟨b, hbody, hchild⟩ := holds_iff.mp hholds
  rw [emptyArrays_body] at hbody
  split at hbody
  · cases hbody
    cases hchild
  · cases hbody

end BreadLang
