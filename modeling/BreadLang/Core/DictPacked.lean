import BreadLang.Core.DictLinear
import BreadLang.Core.DictLiteral
import BreadLang.Library.Outcome
import Mathlib.Tactic.Ring

/-!
# Dictionaries that are filled by `bread_dict_set_value`

Generated code evaluates a dictionary literal by `bread_dict_new` and a call of
`bread_dict_set_value` for each entry, whose result it ignores.  The entries of such a
dictionary are packed at the front of its table.

## Main results

* `literalStored_iff`: a literal is stored in full exactly when its keys are strings that differ
  before their first NUL, and there are not too many of them.
-/

namespace BreadLang

open OpenAddressing

namespace BreadDict

/-- `bread_dict_set_value`, with the result of the C function. -/
def setValue (d : BreadDict) (key value : BreadValue) : Exec (BreadDict × Bool) :=
  match key with
  | .string key => d.set (cString key) value
  | _ => .ok (d, false)

/-- The insertions of a literal, and whether all of them have returned 1. -/
def setAll : List (BreadValue × BreadValue) → BreadDict → Exec (BreadDict × Bool)
  | [], d => .ok (d, true)
  | (key, value) :: rest, d => do
      let (d, stored) ← d.setValue key value
      let (d, all) ← setAll rest d
      return (d, stored && all)

/-! ### Packed dictionaries -/

/-- An entry as a string key is stored. -/
def storedEntry (p : BreadString × BreadValue) : BreadDictEntry :=
  ⟨.string p.1, p.2, true, false⟩

/-- **A packed dictionary**: the pairs at the front of the table, and nothing behind them. -/
structure Packed (d : BreadDict) (valueType : VarType)
    (items : List (BreadString × BreadValue)) : Prop where
  entries : ∃ r, d.entries = items.map storedEntry ++ List.replicate r .zero
  sized : d.capacity = d.entries.length
  count : d.count = items.length
  capacity : d.capacity = 0 ∨ ∃ k, 3 ≤ k ∧ k ≤ 30 ∧ d.capacity = ((2 ^ k : ℕ) : ℤ)
  load : 4 * d.count ≤ 3 * d.capacity
  plain : ∀ p ∈ items, nul ∉ p.1
  keyType : d.keyType = if items = [] then .typeNil else .typeString
  valueType : d.valueType = if items = [] then .typeNil else valueType

theorem packed_new (valueType : VarType) : new.Packed valueType [] where
  entries := ⟨0, rfl⟩
  sized := rfl
  count := rfl
  capacity := .inl rfl
  load := by decide
  plain _ hp := absurd hp List.not_mem_nil
  keyType := rfl
  valueType := rfl

section Packed

variable {d : BreadDict} {t : VarType} {items : List (BreadString × BreadValue)}
  {key : BreadString} {value : BreadValue}

theorem liveEntries_stored (items : List (BreadString × BreadValue)) (r : ℕ) :
    liveEntries (items.map storedEntry ++ List.replicate r .zero) = items.map storedEntry := by
  rw [liveEntries, List.filter_append, List.filter_eq_self.mpr, List.filter_eq_nil_iff.mpr,
    List.append_nil]
  · intro e he
    rw [List.eq_of_mem_replicate he]
    exact Bool.false_ne_true
  · intro e he
    obtain ⟨p, -, rfl⟩ := List.mem_map.mp he
    rfl

theorem liveEntries_map_stored (items : List (BreadString × BreadValue)) :
    liveEntries (items.map storedEntry) = items.map storedEntry := by
  have hlive := liveEntries_stored items 0
  rwa [List.replicate_zero, List.append_nil] at hlive

/-- The test of the scan at a stored entry. -/
theorem holdsString_stored (hkey : nul ∉ key) {p : BreadString × BreadValue} (hp : nul ∉ p.1) :
    holdsString key (storedEntry p) = true ↔ p.1 = key := by
  show (true && (cString p.1 == cString key)) = true ↔ _
  rw [cString_of_notMem hp, cString_of_notMem hkey, Bool.true_and, beq_iff_eq]

/-- The scan finds nothing exactly when the key is new. -/
theorem Packed.findIdx_eq_none_iff (hd : d.Packed t items) (hkey : nul ∉ key) :
    d.entries.findIdx? (holdsString key) = none ↔ key ∉ items.map Prod.fst := by
  obtain ⟨r, hentries⟩ := hd.entries
  rw [List.findIdx?_eq_none_iff, hentries]
  constructor
  · intro hnone hmem
    obtain ⟨p, hp, rfl⟩ := List.mem_map.mp hmem
    have hfalse := hnone _ (List.mem_append_left _ (List.mem_map_of_mem hp))
    rw [(holdsString_stored hkey (hd.plain p hp)).mpr rfl] at hfalse
    cases hfalse
  · intro hnew e he
    rcases List.mem_append.mp he with he | he
    · obtain ⟨p, hp, rfl⟩ := List.mem_map.mp he
      rw [← Bool.not_eq_true, holdsString_stored hkey (hd.plain p hp)]
      rintro rfl
      exact hnew (List.mem_map_of_mem hp)
    · rw [List.eq_of_mem_replicate he]
      rfl

/-- Where the scan finds the key. -/
theorem Packed.findIdx_eq_some {i : ℕ} (hd : d.Packed t items) (hkey : nul ∉ key)
    (hscan : d.entries.findIdx? (holdsString key) = some i) :
    ∃ p, items[i]? = some p ∧ d.entries[i]? = some (storedEntry p) ∧ p.1 = key := by
  obtain ⟨r, hentries⟩ := hd.entries
  obtain ⟨hlt, hholds, -⟩ := List.findIdx?_eq_some_iff_getElem.mp hscan
  have he := List.getElem?_eq_getElem hlt
  rcases Nat.lt_or_ge i items.length with hi | hi
  · have hp := List.getElem?_eq_getElem hi
    have hstored : d.entries[i]? = some (storedEntry items[i]) := by
      rw [hentries, List.getElem?_append_left (by rwa [List.length_map]), List.getElem?_map, hp]
      rfl
    refine ⟨_, hp, hstored, ?_⟩
    rw [Option.some.inj (he.symm.trans hstored)] at hholds
    exact (holdsString_stored hkey (hd.plain _ (List.getElem_mem hi))).mp hholds
  · -- behind the pairs there is nothing
    have hmem : d.entries[i]? = (List.replicate r BreadDictEntry.zero)[i - items.length]? := by
      rw [hentries, List.getElem?_append_right (by rwa [List.length_map]), List.length_map]
    rw [List.eq_of_mem_replicate (List.mem_of_getElem? (hmem.symm.trans he))] at hholds
    cases hholds

variable (key) in
/-- The types are set by the first pair, and the next ones have them. -/
theorem Packed.types (hd : d.Packed t items) (hvalue : value.type = t) :
    d.keyMismatch (.string key) = false ∧ d.valueMismatch value = false ∧
      (d.adoptTypes (.string key) value).keyType = .typeString ∧
        (d.adoptTypes (.string key) value).valueType = t := by
  have hkeyType := hd.keyType
  have hvalueType := hd.valueType
  have hcount := hd.count
  rw [keyMismatch, valueMismatch, adoptTypes]
  cases items with
  | nil => simp_all [BreadValue.type]
  | cons p ps =>
      have hpos : d.count ≠ 0 := by
        rw [hcount, List.length_cons]
        omega
      simp_all [BreadValue.type]

/-- The key is there already: its value is replaced. -/
theorem Packed.set_present (hd : d.Packed t items) (hkey : nul ∉ key) (hvalue : value.type = t)
    (hmem : key ∈ items.map Prod.fst) :
    ∃ d' items', d.set key value = .ok (d', true) ∧ d'.Packed t items' ∧
      items'.map Prod.fst = items.map Prod.fst := by
  obtain ⟨hkm, hvm, hkeyType, hvalueType⟩ := hd.types key hvalue
  cases hscan : d.entries.findIdx? (holdsString key) with
  | none => exact absurd hmem ((hd.findIdx_eq_none_iff hkey).mp hscan)
  | some i =>
      obtain ⟨p, hp, he, rfl⟩ := hd.findIdx_eq_some hkey hscan
      obtain ⟨r, hentries⟩ := hd.entries
      have hlt : i < items.length := (List.getElem?_eq_some_iff.mp hp).1
      have hne : items ≠ [] := List.ne_nil_of_length_pos (by omega)
      have hne' : items.set i (p.1, value) ≠ [] :=
        List.ne_nil_of_length_pos (by rw [List.length_set]; omega)
      refine ⟨{ d.adoptTypes (.string p.1) value with
          entries := d.entries.set i (storedEntry (p.1, value)) },
        items.set i (p.1, value), ?_, ⟨⟨r, ?_⟩, ?_, ?_, hd.capacity, hd.load, ?_, ?_, ?_⟩, ?_⟩
      · rw [BreadDict.set, hkm, hvm]
        simp only [Bool.false_eq_true, if_false, scan_eq (d := d.adoptTypes _ _) hd.sized,
          adoptTypes_entries, hscan, bind, Except.bind]
        rw [entryAt_eq (d := d.adoptTypes (.string p.1) value) he]
        rfl
      · rw [hentries, List.set_append_left _ _ (by rwa [List.length_map]), List.map_set]
      · exact hd.sized.trans (by rw [List.length_set])
      · exact hd.count.trans (by rw [List.length_set])
      · intro q hq
        rcases List.mem_or_eq_of_mem_set hq with hq | rfl
        · exact hd.plain q hq
        · exact hkey
      · rw [if_neg hne']
        exact hkeyType
      · rw [if_neg hne']
        exact hvalueType
      · have hsame : (items.map Prod.fst)[i]? = some p.1 := by rw [List.getElem?_map, hp]; rfl
        obtain ⟨hi, hget⟩ := List.getElem?_eq_some_iff.mp hsame
        rw [List.map_set]
        show (items.map Prod.fst).set i p.1 = _
        rw [← hget, List.set_getElem_self]

/-- The table with a new pair behind the others. -/
theorem Packed.append {capacity : ℤ} {r : ℕ} (hd : d.Packed t items) (hkey : nul ∉ key)
    (hvalue : value.type = t) (hcapacity : capacity = ((items.length + (r + 1) : ℕ) : ℤ))
    (hpow : ∃ k, 3 ≤ k ∧ k ≤ 30 ∧ capacity = ((2 ^ k : ℕ) : ℤ))
    (hload : 4 * (d.count + 1) ≤ 3 * capacity) :
    Packed { d.adoptTypes (.string key) value with
      entries := items.map storedEntry ++ storedEntry (key, value) :: List.replicate r .zero
      capacity := capacity
      count := d.count + 1 } t (items ++ [(key, value)]) := by
  obtain ⟨-, -, hkeyType, hvalueType⟩ := hd.types key hvalue
  have hne : items ++ [(key, value)] ≠ [] := by simp
  refine ⟨⟨r, by simp⟩, ?_, ?_, .inr hpow, hload, ?_, ?_, ?_⟩
  · rw [hcapacity]
    simp only [List.length_append, List.length_map, List.length_cons, List.length_replicate]
  · simp only [List.length_append, List.length_singleton, hd.count]
    push_cast
    rfl
  · intro q hq
    rcases List.mem_append.mp hq with hq | hq
    · exact hd.plain q hq
    · rw [List.mem_singleton.mp hq]
      exact hkey
  · rw [if_neg hne]
    exact hkeyType
  · rw [if_neg hne]
    exact hvalueType

/-- What `bread_dict_set` does with a new key. -/
theorem Packed.set_new (hd : d.Packed t items) (hkey : nul ∉ key) (hvalue : value.type = t)
    (hnew : key ∉ items.map Prod.fst) :
    d.set key value =
      if d.loadReached then do
        let newCapacity ← d.grownCapacity
        if newCapacity < 0 then return (d.adoptTypes (.string key) value, false)
        else do
          let d ← compactLoop d.entries
            { d.adoptTypes (.string key) value with
              entries := List.replicate newCapacity.toNat .zero
              capacity := newCapacity
              count := 0 }
          d.insertFirstFree key value
      else (d.adoptTypes (.string key) value).insertFirstFree key value := by
  obtain ⟨hkm, hvm, -, -⟩ := hd.types key hvalue
  have hscan := (hd.findIdx_eq_none_iff hkey).mpr hnew
  rw [BreadDict.set, hkm, hvm]
  simp only [Bool.false_eq_true, if_false, scan_eq (d := d.adoptTypes _ _) hd.sized,
    adoptTypes_entries, hscan, bind, Except.bind]
  rfl

/-- The length of the entries. -/
theorem Packed.length_entries (hd : d.Packed t items) {r : ℕ}
    (hentries : d.entries = items.map storedEntry ++ List.replicate r .zero) :
    d.capacity = ((items.length + r : ℕ) : ℤ) := by
  rw [hd.sized, hentries, List.length_append, List.length_map, List.length_replicate]

/-- A new key for which the table has room. -/
theorem Packed.set_room (hd : d.Packed t items) (hkey : nul ∉ key) (hvalue : value.type = t)
    (hnew : key ∉ items.map Prod.fst) (hroom : d.loadReached = false) :
    ∃ d', d.set key value = .ok (d', true) ∧ d'.Packed t (items ++ [(key, value)]) := by
  obtain ⟨r, hentries⟩ := hd.entries
  have hlength := hd.length_entries hentries
  have hcount := hd.count
  have hload : 4 * d.count < 3 * d.capacity := by
    rw [loadReached, decide_eq_false_iff_not] at hroom
    omega
  obtain ⟨k, hk, hk30, hpow⟩ : ∃ k, 3 ≤ k ∧ k ≤ 30 ∧ d.capacity = ((2 ^ k : ℕ) : ℤ) :=
    hd.capacity.resolve_left (by omega)
  obtain ⟨r, rfl⟩ : ∃ r', r = r' + 1 := ⟨r - 1, by omega⟩
  -- the capacity is a multiple of four, so one more pair stays within the load
  obtain ⟨j, rfl⟩ : ∃ j, k = j + 2 := ⟨k - 2, by omega⟩
  have hfour : ((2 ^ (j + 2) : ℕ) : ℤ) = 4 * ((2 ^ j : ℕ) : ℤ) := by
    rw [Nat.pow_succ, Nat.pow_succ]
    push_cast
    ring
  have hinsert := insertFirstFree_compacted (d.adoptTypes (.string key) value) key value
    (items.map storedEntry) r (by rw [liveEntries_map_stored]; exact hentries) hd.sized
  refine ⟨_, ?_, hd.append hkey hvalue hlength ⟨j + 2, hk, hk30, hpow⟩ (by omega)⟩
  rw [hd.set_new hkey hvalue hnew, hroom, if_neg Bool.false_ne_true, hinsert, liveEntries_map_stored]
  rfl

/-- The capacity that a full table grows to. -/
theorem Packed.grownCapacity_eq (hd : d.Packed t items) (hload : d.loadReached = true)
    (hfits : items.length < maxStored) :
    ∃ k, 3 ≤ k ∧ k ≤ 30 ∧ d.grownCapacity = .ok ((2 ^ k : ℕ) : ℤ) ∧
      4 * (d.count + 1) ≤ 3 * ((2 ^ k : ℕ) : ℤ) := by
  have hcount := hd.count
  have hlimit := hd.load
  rw [loadReached, decide_eq_true_eq] at hload
  rcases hd.capacity with hzero | ⟨k, hk, hk30, hpow⟩
  · refine ⟨3, le_rfl, by decide, ?_, ?_⟩
    · rw [grownCapacity, if_pos hzero]
      rfl
    · omega
  · have hlt : k < 30 := by
      by_contra hge
      obtain rfl : k = 30 := by omega
      rw [maxStored] at hfits
      omega
    have hdouble : ((2 ^ (k + 1) : ℕ) : ℤ) = d.capacity * 2 := by
      rw [hpow, Nat.pow_succ]
      push_cast
      rfl
    have hbound : 2 ^ (k + 1) ≤ 2 ^ 30 := Nat.pow_le_pow_right (by decide) hlt
    have height : 2 ^ 3 ≤ 2 ^ k := Nat.pow_le_pow_right (by decide) hk
    refine ⟨k + 1, by omega, hlt, ?_, by omega⟩
    rw [grownCapacity, if_neg (by omega), ← hdouble, checkedInt_of_mem]
    rw [intMin, intMax]
    omega

/-- A new key that makes the table grow. -/
theorem Packed.set_growth (hd : d.Packed t items) (hkey : nul ∉ key) (hvalue : value.type = t)
    (hnew : key ∉ items.map Prod.fst) (hload : d.loadReached = true)
    (hfits : items.length < maxStored) :
    ∃ d', d.set key value = .ok (d', true) ∧ d'.Packed t (items ++ [(key, value)]) := by
  obtain ⟨r₀, hentries⟩ := hd.entries
  have hcount := hd.count
  obtain ⟨k, hk, hk30, hgrown, hload'⟩ := hd.grownCapacity_eq hload hfits
  obtain ⟨r, hr⟩ : ∃ r, 2 ^ k = items.length + (r + 1) :=
    ⟨2 ^ k - items.length - 1, by omega⟩
  have hlive : liveEntries d.entries = items.map storedEntry := by
    rw [hentries, liveEntries_stored]
  have hcompact := compactLoop_eq d.entries [] (2 ^ k)
    { d.adoptTypes (.string key) value with
      entries := List.replicate (2 ^ k) .zero
      capacity := ((2 ^ k : ℕ) : ℤ)
      count := 0 }
    (fun e he => absurd he List.not_mem_nil) rfl (by simp only [List.length_replicate])
    (by rw [hlive, List.length_map]; omega)
  have hleft : 2 ^ k - (items.map storedEntry).length = r + 1 := by
    rw [List.length_map]
    omega
  rw [hlive, hleft, List.nil_append] at hcompact
  have hinsert := insertFirstFree_compacted
    { d.adoptTypes (.string key) value with
      entries := items.map storedEntry ++ List.replicate (r + 1) .zero
      capacity := ((2 ^ k : ℕ) : ℤ)
      count := 0 + ((items.map storedEntry).length : ℤ) }
    key value (items.map storedEntry) r (by rw [liveEntries_map_stored])
    (by
      simp only [List.length_append, List.length_replicate, List.length_map]
      omega)
  refine ⟨_, ?_, hd.append hkey hvalue (congrArg _ hr) ⟨k, hk, hk30, rfl⟩ hload'⟩
  have hcounted : 0 + ((items.map storedEntry).length : ℤ) + 1 = d.count + 1 := by
    rw [List.length_map, Int.zero_add, hcount]
  rw [hd.set_new hkey hvalue hnew, hload, if_pos rfl]
  refine bind_eq_ok.mpr ⟨_, hgrown, ?_⟩
  rw [if_neg (by omega), Int.toNat_natCast]
  refine bind_eq_ok.mpr ⟨_, hcompact, ?_⟩
  rw [hinsert, liveEntries_map_stored, hcounted]
  rfl

/-- A new key for which the table cannot grow any more. -/
theorem Packed.set_overflow (hd : d.Packed t items) (hkey : nul ∉ key) (hvalue : value.type = t)
    (hnew : key ∉ items.map Prod.fst) (hfull : maxStored ≤ items.length) :
    d.set key value = .error (.undefined .signedOverflow) := by
  have hcount := hd.count
  have hlimit := hd.load
  rw [maxStored] at hfull
  have hcapacity : d.capacity = 2 ^ 30 := by
    rcases hd.capacity with hzero | ⟨k, hk, hk30, hpow⟩
    · omega
    · have hbound : 2 ^ k ≤ 2 ^ 30 := Nat.pow_le_pow_right (by decide) hk30
      omega
  have hload : d.loadReached = true := by
    rw [loadReached, decide_eq_true_eq]
    omega
  have hgrown : d.grownCapacity = .error (.undefined .signedOverflow) := by
    rw [grownCapacity, if_neg (by omega), hcapacity]
    rfl
  rw [hd.set_new hkey hvalue hnew, hload, if_pos rfl, hgrown]
  rfl

end Packed

/-! ### Literals -/

/-- The pair that a literal's entry is stored as, when its key is a string. -/
def literalPair (p : BreadString × BreadValue) : BreadValue × BreadValue :=
  (.string p.1, p.2)

/-- The bytes of a key that `bread_dict_set_value` passes on. -/
def keyBytes : BreadValue → BreadString
  | .string key => cString key
  | _ => []

theorem nul_notMem_cString (s : BreadString) : nul ∉ cString s := by
  intro hmem
  have hne := List.mem_takeWhile_imp hmem
  simp at hne

section Literals

variable {d d' : BreadDict} {t : VarType} {items : List (BreadString × BreadValue)} {all : Bool}

/-- Distinct keys are all stored.  The induction is on the entries left. -/
theorem setAll_stores (ps : List (BreadString × BreadValue)) :
    ∀ (d : BreadDict) (items : List (BreadString × BreadValue)), d.Packed t items →
      (∀ p ∈ ps, p.2.type = t) →
      (items.map Prod.fst ++ ps.map fun p => cString p.1).Nodup →
      items.length + ps.length ≤ maxStored →
      ∃ d' items', setAll (ps.map literalPair) d = .ok (d', true) ∧ d'.Packed t items' ∧
        items'.length = items.length + ps.length := by
  induction ps with
  | nil =>
      intro d items hd _ _ _
      exact ⟨d, items, rfl, hd, rfl⟩
  | cons p ps ih =>
      intro d items hd hvalues hnodup hfits
      have hvalue := hvalues p List.mem_cons_self
      have hkey := nul_notMem_cString p.1
      rw [List.length_cons] at hfits
      have hnew : cString p.1 ∉ items.map Prod.fst := fun hmem =>
        List.disjoint_of_nodup_append hnodup hmem List.mem_cons_self
      obtain ⟨d₁, hset, hd₁⟩ : ∃ d₁, d.set (cString p.1) p.2 = .ok (d₁, true) ∧
          d₁.Packed t (items ++ [(cString p.1, p.2)]) := by
        cases hload : d.loadReached with
        | true => exact hd.set_growth hkey hvalue hnew hload (by omega)
        | false => exact hd.set_room hkey hvalue hnew hload
      obtain ⟨d', items', hrun, hd', hlength⟩ := ih d₁ _ hd₁
        (fun q hq => hvalues q (List.mem_cons_of_mem _ hq))
        (by simpa only [List.map_append, List.map_cons, List.map_nil, List.append_assoc,
          List.singleton_append] using hnodup)
        (by rw [List.length_append, List.length_singleton]; omega)
      refine ⟨d', items', bind_eq_ok.mpr ⟨_, hset, bind_eq_ok.mpr ⟨_, hrun, rfl⟩⟩, hd', ?_⟩
      rw [hlength, List.length_append, List.length_singleton, List.length_cons]
      omega

/-- Every insertion that returns has returned 1.  No more entries are stored than there are,
and as many only when their keys are distinct. -/
theorem length_of_setAll (ps : List (BreadString × BreadValue)) :
    ∀ (d d' : BreadDict) (items : List (BreadString × BreadValue)) (all : Bool),
      d.Packed t items → (∀ p ∈ ps, p.2.type = t) → (items.map Prod.fst).Nodup →
      items.length ≤ maxStored → setAll (ps.map literalPair) d = .ok (d', all) →
      all = true ∧ ∃ items', d'.Packed t items' ∧ items'.length ≤ items.length + ps.length ∧
        (items'.length = items.length + ps.length →
          (items.map Prod.fst ++ ps.map fun p => cString p.1).Nodup ∧
            items.length + ps.length ≤ maxStored) := by
  induction ps with
  | nil =>
      intro d d' items all hd _ hnodup hfits hrun
      cases hrun
      exact ⟨rfl, items, hd, le_rfl, fun _ => ⟨by simpa using hnodup, hfits⟩⟩
  | cons p ps ih =>
      intro d d' items all hd hvalues hnodup hfits hrun
      have hvalue := hvalues p List.mem_cons_self
      have hkey := nul_notMem_cString p.1
      have hrest := fun q hq => hvalues q (List.mem_cons_of_mem p hq)
      obtain ⟨⟨d₁, stored⟩, hset, hrun⟩ := bind_eq_ok.mp hrun
      obtain ⟨⟨d₂, all'⟩, hrest', hreturn⟩ := bind_eq_ok.mp hrun
      cases hreturn
      rw [List.length_cons]
      by_cases hmem : cString p.1 ∈ items.map Prod.fst
      · -- the value of an entry is replaced, and one entry is lost
        obtain ⟨d₁', items₁, hset', hd₁, hkeys⟩ := hd.set_present hkey hvalue hmem
        cases hset.symm.trans hset'
        have hlength : items₁.length = items.length := by
          simpa using congrArg List.length hkeys
        obtain ⟨hall', items', hd', hle, -⟩ := ih _ _ items₁ _ hd₁ hrest (hkeys ▸ hnodup)
          (hlength ▸ hfits) hrest'
        exact ⟨hall', items', hd', by omega, fun h => by omega⟩
      · by_cases hfull : items.length < maxStored
        · obtain ⟨d₁', hset', hd₁⟩ : ∃ d₁, d.set (cString p.1) p.2 = .ok (d₁, true) ∧
              d₁.Packed t (items ++ [(cString p.1, p.2)]) := by
            cases hload : d.loadReached with
            | true => exact hd.set_growth hkey hvalue hmem hload hfull
            | false => exact hd.set_room hkey hvalue hmem hload
          cases hset.symm.trans hset'
          have hlength : (items ++ [(cString p.1, p.2)]).length = items.length + 1 := by
            rw [List.length_append, List.length_singleton]
          have hnodup₁ : ((items ++ [(cString p.1, p.2)]).map Prod.fst).Nodup := by
            rw [List.map_append, List.nodup_append]
            refine ⟨hnodup, List.pairwise_singleton _ _, ?_⟩
            intro k hk k' hk' heq
            rw [heq, List.mem_singleton.mp hk'] at hk
            exact hmem hk
          obtain ⟨hall', items', hd', hle, hall⟩ := ih _ _ _ _ hd₁ hrest hnodup₁ (by omega) hrest'
          refine ⟨hall', items', hd', by omega, fun h => ?_⟩
          obtain ⟨hdistinct, hstored⟩ := hall (by omega)
          refine ⟨?_, by omega⟩
          simpa only [List.map_append, List.map_cons, List.map_nil, List.append_assoc,
            List.singleton_append] using hdistinct
        · have hoverflow := hd.set_overflow hkey hvalue hmem (Nat.not_lt.mp hfull)
          cases hset.symm.trans hoverflow

/-- **A complete literal**: every insertion returns 1, and the dictionary has as many entries
as the literal. -/
def LiteralComplete (ps : List (BreadValue × BreadValue)) : Prop :=
  ∃ d, setAll ps .new = .ok (d, true) ∧ d.count = ps.length ∧ liveCount d.table = ps.length

theorem Packed.liveCount_eq (hd : d.Packed t items) : liveCount d.table = items.length := by
  obtain ⟨r, hentries⟩ := hd.entries
  rw [← length_liveEntries, hentries, liveEntries_stored, List.length_map]

/-- A literal whose keys are strings. -/
theorem exists_literalPairs {ps : List (BreadValue × BreadValue)}
    (hkeys : ∀ p ∈ ps, p.1.type = .typeString) :
    ∃ sps : List (BreadString × BreadValue), ps = sps.map literalPair := by
  induction ps with
  | nil => exact ⟨[], rfl⟩
  | cons p ps ih =>
      obtain ⟨sps, rfl⟩ := ih fun q hq => hkeys q (List.mem_cons_of_mem _ hq)
      obtain ⟨key, value⟩ := p
      cases key with
      | string s => exact ⟨(s, value) :: sps, rfl⟩
      | _ => cases hkeys _ List.mem_cons_self

theorem literalComplete_strings_iff (sps : List (BreadString × BreadValue))
    (hvalues : ∀ p ∈ sps, p.2.type = t) :
    LiteralComplete (sps.map literalPair) ↔
      (sps.map fun p => cString p.1).Nodup ∧ sps.length ≤ maxStored := by
  rw [LiteralComplete, List.length_map]
  constructor
  · rintro ⟨d, hrun, hcount, -⟩
    obtain ⟨-, items, hd, -, hall⟩ := length_of_setAll sps .new d [] true (packed_new t) hvalues
      List.nodup_nil (Nat.zero_le _) hrun
    have hlength : items.length = sps.length := by
      have hitems := hd.count
      omega
    obtain ⟨hnodup, hfits⟩ := hall (by rw [hlength, List.length_nil, Nat.zero_add])
    exact ⟨hnodup, by simpa using hfits⟩
  · rintro ⟨hnodup, hfits⟩
    obtain ⟨d, items, hrun, hd, hlength⟩ := setAll_stores sps .new [] (packed_new t) hvalues
      hnodup (by simpa using hfits)
    rw [List.length_nil, Nat.zero_add] at hlength
    exact ⟨d, hrun, by rw [hd.count, hlength], by rw [hd.liveCount_eq, hlength]⟩

/-- **A stored literal**: every insertion that returns has returned 1, and a literal with
distinct keys is complete. -/
def LiteralStored (ps : List (BreadValue × BreadValue)) : Prop :=
  (Gives (setAll ps .new) fun result => result.2 = true) ∧
    ((ps.map Prod.fst).Nodup → LiteralComplete ps)

/-- Keys that are no strings leave the dictionary as it is. -/
theorem setAll_refused {ps : List (BreadValue × BreadValue)} (d : BreadDict)
    (hkeys : ∀ p ∈ ps, p.1.type ≠ .typeString) : setAll ps d = .ok (d, ps.isEmpty) := by
  induction ps with
  | nil => rfl
  | cons p ps ih =>
      have hset : d.setValue p.1 p.2 = .ok (d, false) := by
        have hkey := hkeys p List.mem_cons_self
        obtain ⟨key, value⟩ := p
        cases key with
        | string s => exact absurd rfl hkey
        | _ => rfl
      have hrest := ih fun q hq => hkeys q (List.mem_cons_of_mem p hq)
      exact bind_eq_ok.mpr ⟨_, hset, bind_eq_ok.mpr ⟨_, hrest, rfl⟩⟩

/-- **A literal is stored** exactly when it is empty, or its keys are strings and differ
before their first NUL if they differ, and its table does not outgrow an `int`. -/
theorem literalStored_iff {ps : List (BreadValue × BreadValue)} {k : VarType}
    (hkeys : ∀ p ∈ ps, p.1.type = k) (hvalues : ∀ p ∈ ps, p.2.type = t) :
    LiteralStored ps ↔ ps = [] ∨ (k = .typeString ∧
      ((ps.map Prod.fst).Nodup →
        (ps.map fun p => keyBytes p.1).Nodup ∧ ps.length ≤ maxStored)) := by
  by_cases hstring : k = .typeString
  · subst hstring
    obtain ⟨sps, rfl⟩ := exists_literalPairs hkeys
    have hvalues' : ∀ p ∈ sps, p.2.type = t := fun p hp => hvalues _ (List.mem_map_of_mem hp)
    have hbytes : (sps.map literalPair).map (fun p => keyBytes p.1) =
        sps.map fun p => cString p.1 := by
      rw [List.map_map]
      rfl
    have hstored : Gives (setAll (sps.map literalPair) .new) fun result => result.2 = true := by
      rintro ⟨d, all⟩ hrun
      exact (length_of_setAll sps .new d [] all (packed_new t) hvalues' List.nodup_nil
        (Nat.zero_le _) hrun).1
    rw [LiteralStored, literalComplete_strings_iff sps hvalues', hbytes, List.length_map]
    constructor
    · rintro ⟨-, hcomplete⟩
      exact .inr ⟨rfl, hcomplete⟩
    · rintro (hnil | ⟨-, hcomplete⟩)
      · rw [List.map_eq_nil_iff.mp hnil]
        exact ⟨gives_ok rfl, fun _ => ⟨List.nodup_nil, Nat.zero_le _⟩⟩
      · exact ⟨hstored, hcomplete⟩
  · have hrefused := setAll_refused .new fun p hp => (hkeys p hp).trans_ne hstring
    cases ps with
    | nil => exact iff_of_true ⟨gives_ok rfl, fun _ => ⟨.new, rfl, rfl, rfl⟩⟩ (.inl rfl)
    | cons p ps =>
        refine iff_of_false ?_ ?_
        · rintro ⟨hgives, -⟩
          cases hgives _ hrefused
        · rintro (h | h)
          · cases h
          · exact hstring h.1

end Literals

end BreadDict

end BreadLang
