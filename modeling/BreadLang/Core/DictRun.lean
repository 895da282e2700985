import BreadLang.Core.DictMap
import BreadLang.Library.Run

/-!
# Runs of the probing dictionary API

Sequences of `bread_dict_set_safe`, `bread_dict_remove`, `bread_dict_clear`,
`bread_dict_get_safe` and `bread_dict_contains_key` on a dictionary fresh from
one of its constructors, against the finite map they are meant to implement.

The step lemma is `DictOp.step_refines`: in a state that is `Clear` for the
operation, the runtime and the map take the same step.  The guard cannot be
dropped: `removed_neighbour_hides_key` is a run of four operations after which
a stored key is not found.
-/

namespace BreadLang

open OpenAddressing BreadDict

/-! ### Constructors -/

/-- A call of one of the constructors of an empty dictionary. -/
inductive DictConstructor where
  | new
  | newTyped (keyType valueType : VarType)
  | newWithCapacity (capacity : ℤ) (keyType valueType : VarType)

namespace DictConstructor

/-- The dictionary it returns. -/
def build : DictConstructor → BreadDict
  | .new => BreadDict.new
  | .newTyped keyType valueType => BreadDict.newTyped keyType valueType
  | .newWithCapacity capacity keyType valueType =>
      BreadDict.newWithCapacity capacity keyType valueType

/-- The key type it declares, nil for none. -/
def keyType : DictConstructor → VarType
  | .new => .typeNil
  | .newTyped keyType _ => keyType
  | .newWithCapacity _ keyType _ => keyType

/-- The value type it declares, nil for none. -/
def valueType : DictConstructor → VarType
  | .new => .typeNil
  | .newTyped _ valueType => valueType
  | .newWithCapacity _ _ valueType => valueType

/-- The capacity is an `int` that is not negative. -/
def Sized : DictConstructor → Prop
  | .newWithCapacity capacity _ _ => 0 ≤ capacity ∧ capacity ≤ intMax
  | _ => True

theorem build_keyType (c : DictConstructor) : c.build.keyType = c.keyType := by
  cases c <;> rfl

theorem build_valueType (c : DictConstructor) : c.build.valueType = c.valueType := by
  cases c <;> rfl

theorem build_count (c : DictConstructor) : c.build.count = 0 := by
  cases c <;> rfl

/-- All slots of a new dictionary are empty. -/
theorem build_table (c : DictConstructor) :
    c.build.table = List.replicate c.build.entries.length .empty := by
  cases c with
  | new => rfl
  | newTyped _ _ => rfl
  | newWithCapacity capacity _ _ =>
      simp [build, BreadDict.newWithCapacity, table]

theorem build_denote (c : DictConstructor) (k : BreadValue) :
    denote c.build.table k = none := by
  rw [build_table, denote_replicate]

theorem build_inv {c : DictConstructor} (hc : c.Sized) : c.build.Inv := by
  have hnot : ∀ {s : ℕ} {k v : BreadValue},
      c.build.table[s]? ≠ some (.live k v) := by
    intro s k v hs
    rw [build_table] at hs
    simp [List.getElem?_replicate] at hs
  have hsize : c.build.capacity = c.build.entries.length ∧
      c.build.capacity ≤ intMax := by
    cases c with
    | new => exact ⟨rfl, by decide⟩
    | newTyped _ _ => exact ⟨rfl, (by decide : (0 : ℤ) ≤ intMax)⟩
    | newWithCapacity capacity _ _ =>
        obtain ⟨h₀, hmax⟩ := hc
        simp only [build, BreadDict.newWithCapacity, List.length_replicate]
        omega
  exact
    { sized := hsize.1
      bounded := hsize.2
      plain := fun hs => absurd hs hnot
      keyTyped := fun hs => absurd hs hnot
      wellFormed := by rw [build_table]; exact wellFormed_replicate _ _
      count_eq := by
        rw [build_count, build_table]
        simp [liveCount, List.countP_replicate] }

end DictConstructor

/-! ### Operations -/

/-- One call of the dictionary API. -/
inductive DictOp where
  | set (key : PlainKey) (value : BreadValue)
  | remove (key : PlainKey)
  | clear
  | get (key : PlainKey)
  | contains (key : PlainKey)

/-- What the call returns. -/
inductive DictReply where
  | stored (accepted : Bool)
  | removed (value : BreadValue)
  | cleared
  | found (value : Option BreadValue)
  | present (answer : Bool)
  deriving DecidableEq

/-- The finite map a dictionary is meant to be. -/
abbrev DictMap := BreadValue → Option BreadValue

namespace DictOp

/-- One call, executed by the runtime. -/
def step (d : BreadDict) : DictOp → Exec (BreadDict × DictReply)
  | .set key value => do
      let (d', r) ← d.setSafe key value
      return (d', .stored r.toBool)
  | .remove key => do
      let (d', r) ← d.remove key
      return (d', .removed (returnedValue r))
  | .clear => .ok (d.clear, .cleared)
  | .get key => return (d, .found (returnedPointer (← d.getSafe key)))
  | .contains key => return (d, .present (← d.containsKey key))

/-- One call, as an operation on a finite map.  The map of a dictionary whose
declared types do not fit the pairs it is given stays empty. -/
def spec (accepts : Bool) (m : DictMap) : DictOp → DictMap × DictReply
  | .set key value =>
      if accepts then (Function.update m key (some value), .stored true)
      else (m, .stored false)
  | .remove key => (Function.update m key none, .removed ((m key).getD .nil))
  | .clear => (fun _ => none, .cleared)
  | .get key => (m, .found (m key))
  | .contains key => (m, .present (m key).isSome)

/-- The key of the call has type `keyType`, its value has type `valueType`. -/
def HasTypes (keyType valueType : VarType) : DictOp → Prop
  | .set key value => key.1.type = keyType ∧ value.type = valueType
  | .remove key => key.1.type = keyType
  | .clear => True
  | .get key => key.1.type = keyType
  | .contains key => key.1.type = keyType

instance (keyType valueType : VarType) (op : DictOp) :
    Decidable (op.HasTypes keyType valueType) := by
  cases op <;> unfold HasTypes <;> infer_instance

/-- The state a call may safely be made in: no tombstone hides its key, and a
set that needs a larger table can have one. -/
def Clear (d : BreadDict) : DictOp → Prop
  | .set key _ => d.SetClear key
  | .remove key => Unblocked home d.table key
  | .clear => True
  | .get key => Unblocked home d.table key
  | .contains key => Unblocked home d.table key

instance (d : BreadDict) (op : DictOp) : Decidable (op.Clear d) := by
  cases op <;> unfold Clear <;> infer_instance

end DictOp

/-- Whether a dictionary with these declared types takes pairs of these types. -/
def DictConstructor.accepts (c : DictConstructor) (keyType valueType : VarType) :
    Bool :=
  (c.keyType == .typeNil || c.keyType == keyType) &&
    (c.valueType == .typeNil || c.valueType == valueType)

/-! ### The refinement -/

/-- The runtime state stands for the map, and its type tags still say what the
constructor declared or the pairs determined. -/
structure Refines (c : DictConstructor) (keyType valueType : VarType)
    (d : BreadDict) (m : DictMap) : Prop where
  inv : d.Inv
  denote_eq : denote d.table = m
  key_type : d.keyType = c.keyType ∨
    (c.accepts keyType valueType = true ∧ d.keyType = keyType)
  value_type : d.valueType = c.valueType ∨
    (c.accepts keyType valueType = true ∧ d.valueType = valueType)

section Step

variable {c : DictConstructor} {keyType valueType : VarType}
variable {d : BreadDict} {m : DictMap}

/-- In a run with keys and values of one type each, a pair is accepted exactly
when the declared types allow it. -/
theorem Refines.mismatch_iff (h : Refines c keyType valueType d m)
    {key value : BreadValue} (hk : key.type = keyType)
    (hv : value.type = valueType) :
    (d.keyMismatch key = false ∧ d.valueMismatch value = false) ↔
      c.accepts keyType valueType = true := by
  have hkey : d.keyMismatch key = false ↔
      d.keyType = .typeNil ∨ d.keyType = keyType := by
    rw [keyMismatch, hk, Bool.and_eq_false_iff]
    simp
  have hvalue : d.valueMismatch value = false ↔
      d.valueType = .typeNil ∨ d.valueType = valueType := by
    rw [valueMismatch, hv, Bool.and_eq_false_iff]
    simp
  rw [hkey, hvalue]
  have haccepts : c.accepts keyType valueType = true ↔
      (c.keyType = .typeNil ∨ c.keyType = keyType) ∧
        (c.valueType = .typeNil ∨ c.valueType = valueType) := by
    simp [DictConstructor.accepts]
  rcases h.key_type with hkt | ⟨hacc, hkt⟩ <;>
    rcases h.value_type with hvt | ⟨hacc', hvt⟩
  · rw [hkt, hvt, haccepts]
  · simp [hacc', hvt, hkt, haccepts.mp hacc']
  · simp [hacc, hvt, hkt, haccepts.mp hacc]
  · simp [hacc, hvt, hkt]

/-- Storing a pair of accepted types. -/
theorem Refines.set (h : Refines c keyType valueType d m)
    (hacc : c.accepts keyType valueType = true) {key value : BreadValue}
    (hk : key.type = keyType) (hv : value.type = valueType) {d' : BreadDict}
    (hres : SetResult d key value d') :
    Refines c keyType valueType d' (Function.update m key (some value)) := by
  refine ⟨hres.inv, by rw [hres.denote_eq, h.denote_eq],
    Or.inr ⟨hacc, hres.keyType.trans hk⟩, ?_⟩
  rw [hres.valueType, adoptTypes_valueType]
  split
  · exact Or.inr ⟨hacc, hv⟩
  · exact h.value_type

/-- **One call.**  In a state that is clear for the call, the runtime and the
map take the same step. -/
theorem DictOp.step_refines (h : Refines c keyType valueType d m) (op : DictOp)
    (htypes : op.HasTypes keyType valueType) (hclear : op.Clear d) :
    ∃ d', op.step d =
        .ok (d', (op.spec (c.accepts keyType valueType) m).2) ∧
      Refines c keyType valueType d'
        (op.spec (c.accepts keyType valueType) m).1 := by
  have hmap := h.denote_eq
  cases op with
  | set key value =>
      obtain ⟨hk, hv⟩ := htypes
      have hiff := h.mismatch_iff hk hv
      cases hacc : c.accepts keyType valueType with
      | true =>
          obtain ⟨hkm, hvm⟩ := hiff.mpr hacc
          obtain ⟨d', hset, hres⟩ := h.inv.setSafe_spec key.2 hkm hvm hclear
          refine ⟨d', ?_, h.set hacc hk hv hres⟩
          rw [DictOp.step, hset]
          rfl
      | false =>
          have hmis : d.keyMismatch key = true ∨ d.valueMismatch value = true := by
            by_contra hcon
            push Not at hcon
            have := hiff.mp ⟨by simpa using hcon.1, by simpa using hcon.2⟩
            simp [hacc] at this
          obtain ⟨e, hset⟩ := setSafe_of_mismatch hmis
          refine ⟨d, ?_, h.inv, hmap, ?_, ?_⟩
          · rw [DictOp.step, hset]
            rfl
          · simpa [hacc] using h.key_type
          · simpa [hacc] using h.value_type
  | remove key =>
      obtain ⟨d', r, hrem, hinv, hkt, hvt, hret, hden⟩ :=
        h.inv.remove_spec key.2 hclear
      refine ⟨d', ?_, hinv, by rw [hden, hmap]; rfl, hkt ▸ h.key_type,
        hvt ▸ h.value_type⟩
      rw [DictOp.step, hrem, DictOp.spec, ← hmap, ← hret]
      rfl
  | clear =>
      obtain ⟨hinv, htable⟩ := h.inv.clear_spec
      refine ⟨d.clear, rfl, hinv, ?_, h.key_type, h.value_type⟩
      rw [htable]
      funext k
      exact denote_replicate _ _
  | get key =>
      obtain ⟨r, hget, hret⟩ := h.inv.getSafe_spec key.2 hclear
      refine ⟨d, ?_, h⟩
      rw [DictOp.step, hget, DictOp.spec, ← hmap, ← hret]
      rfl
  | contains key =>
      refine ⟨d, ?_, h⟩
      rw [DictOp.step, h.inv.containsKey_spec key.2 hclear, DictOp.spec, ← hmap]
      rfl

end Step

/-- No two live entries hold keys that the dictionary takes for equal. -/
def BreadDict.LiveKeysDistinct (d : BreadDict) : Prop :=
  ∀ (i j : ℕ) (e e' : BreadDictEntry), d.entries[i]? = some e →
    d.entries[j]? = some e' → e.isLive = true → e'.isLive = true →
      keysEqual e.key e'.key = true → i = j

theorem BreadDict.Inv.liveKeysDistinct {d : BreadDict} (hd : d.Inv) :
    d.LiveKeysDistinct := by
  intro i j e e' hi hj he he' heq
  have hti : d.table[i]? = some (.live e.key e.value) := by
    rw [table_getElem?, hi, Option.map_some, BreadDictEntry.slot_of_isLive he]
  have htj : d.table[j]? = some (.live e'.key e'.value) := by
    rw [table_getElem?, hj, Option.map_some, BreadDictEntry.slot_of_isLive he']
  rw [keysEqual_iff (hd.plain hti) (hd.plain htj)] at heq
  rw [← heq] at htj
  exact hd.wellFormed.distinct hti htj

/-- **The probing API implements a finite map** in every run all of whose calls
are made in clear states: each call returns what the map returns, and the live
keys stay distinct. -/
theorem dict_run_refines_map (c : DictConstructor) (keyType valueType : VarType)
    (ops : List DictOp) (htypes : ∀ op ∈ ops, op.HasTypes keyType valueType)
    (hc : c.Sized)
    (hclear : Run.Guarded DictOp.step (fun d op => op.Clear d) c.build ops) :
    ∃ d', Run.run DictOp.step c.build ops =
        .ok (d', (Run.replay (DictOp.spec (c.accepts keyType valueType))
          (fun _ => none) ops).2) ∧
      d'.LiveKeysDistinct := by
  obtain ⟨d', hrun, hrel⟩ := Run.run_refines (Refines c keyType valueType) ops
    (fun d m op hop h hg => DictOp.step_refines h op (htypes op hop) hg)
    c.build (fun _ => none)
    ⟨DictConstructor.build_inv hc, funext c.build_denote,
      Or.inl c.build_keyType, Or.inl c.build_valueType⟩ hclear
  exact ⟨d', hrun, hrel.inv.liveKeysDistinct⟩

/-- The `Int` key `n`. -/
def intKey (n : BreadInt) : PlainKey := ⟨.int n, rfl⟩

/-- A run in which a key is set, found, overwritten and removed, and another
one survives. -/
theorem dict_run_refines_map_applies :
    ∃ d', Run.run DictOp.step BreadDict.new
        [.set (intKey 0) (.int 10), .set (intKey 1) (.int 11), .get (intKey 0),
          .set (intKey 0) (.int 12), .remove (intKey 0), .get (intKey 1)] =
        .ok (d', [.stored true, .stored true, .found (some (.int 10)), .stored true,
          .removed (.int 12), .found (some (.int 11))]) ∧ d'.LiveKeysDistinct :=
  dict_run_refines_map .new .typeInt .typeInt _ (by decide) trivial (by decide +kernel)

/-- Keys 0 and 2 collide in a table of eight slots.  Removing the first leaves
a tombstone in front of the second, which is then no longer found. -/
theorem removed_neighbour_hides_key :
    ¬ ∃ d', Run.run DictOp.step BreadDict.new
        [.set (intKey 0) (.int 10), .set (intKey 2) (.int 12),
          .remove (intKey 0), .get (intKey 2)] =
        .ok (d', (Run.replay (DictOp.spec true) (fun _ => none)
          [.set (intKey 0) (.int 10), .set (intKey 2) (.int 12),
            .remove (intKey 0), .get (intKey 2)]).2) := by
  rintro ⟨d', h⟩
  have hrun : (Run.run DictOp.step BreadDict.new
      [.set (intKey 0) (.int 10), .set (intKey 2) (.int 12),
        .remove (intKey 0), .get (intKey 2)]).map Prod.snd =
      .ok [.stored true, .stored true, .removed (.int 10), .found none] := by
    decide +kernel
  have hspec : (Run.replay (DictOp.spec true) (fun _ => none)
      [.set (intKey 0) (.int 10), .set (intKey 2) (.int 12),
        .remove (intKey 0), .get (intKey 2)]).2 =
      [.stored true, .stored true, .removed (.int 10), .found (some (.int 12))] := by
    decide +kernel
  rw [hspec] at h
  rw [h] at hrun
  simp [Except.map] at hrun

end BreadLang
