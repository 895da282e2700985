import BreadLang.Core.DictTable
import BreadLang.Runtime.ValueOps

/-!
# The comparisons for equality

`bread_eq`, the operators `=` and `!`, the searches of an array and the search of a
dictionary each compare values in their own way.  They part on strings that C functions
cannot tell apart, and on objects, which the searches do not compare.

## Main results

* `equality_agrees_iff`: the comparisons agree on two values of one type unless these are one
  object, or different strings up to the first NUL; a key is found after it was stored unless
  it is an object.
-/

namespace BreadLang

open BreadDict

/-! ### The comparisons -/

/-- `bread_eq`, on values of one type or of two.  `near` is the test
`fabs(left - right) < 1e-9`. -/
def breadEq (near : DoubleBits → DoubleBits → Bool) (left right : BreadValue) : Bool :=
  match left, right with
  | .nil, .nil => true
  | .bool a, .bool b => a == b
  | .int a, .int b => a == b
  | .double a, .double b => near a b
  -- the lengths and then the bytes
  | .string a, .string b => a == b
  | .array a, .array b => a == b
  | .dict a, .dict b => a == b
  | .optional a, .optional b => a == b
  | .struct a, .struct b => a == b
  | .class a, .class b => a == b
  | _, _ => false

namespace BreadArray

/-- `bread_array_contains`.  Its comparison is that of `bread_dict_find_slot`. -/
def contains (a : BreadArray) (value : BreadValue) : Bool :=
  a.items.any fun element => keysEqual element value

/-- `bread_array_index_of`, with `none` for the result `-1`. -/
def indexOf (a : BreadArray) (value : BreadValue) : Option ℕ :=
  a.items.findIdx? fun element => keysEqual element value

/-- An array of one element. -/
def singleton (v : BreadValue) : BreadArray where
  count := 1
  capacity := 8
  elementType := v.type
  items := [v]

end BreadArray

/-- A dictionary whose only slot is taken. -/
def BreadDict.singleton (key value : BreadValue) : BreadDict where
  count := 1
  capacity := 1
  keyType := key.type
  valueType := value.type
  entries := [⟨key, value, true, false⟩]

/-- The types whose values are objects other than strings. -/
def VarType.isObject : VarType → Bool
  | .typeArray | .typeDict | .typeOptional | .typeStruct | .typeClass => true
  | _ => false

/-! ### What the comparisons say -/

section Comparisons

variable {near : DoubleBits → DoubleBits → Bool} {ops : DoubleOps} {a b value : BreadValue}

theorem strcmp_eq_iff (as bs : List Char) : strcmp as bs = .eq ↔ as = bs := by
  induction as generalizing bs with
  | nil => cases bs <;> simp [strcmp]
  | cons a as ih =>
      cases bs with
      | nil => simp [strcmp]
      | cons b bs =>
          rw [strcmp, List.cons.injEq]
          cases hcmp : compare a.toNat b.toNat with
          | lt =>
              refine iff_of_false (by simp) fun h => ?_
              rw [h.1, compare_eq_iff_eq.mpr rfl] at hcmp
              cases hcmp
          | gt =>
              refine iff_of_false (by simp) fun h => ?_
              rw [h.1, compare_eq_iff_eq.mpr rfl] at hcmp
              cases hcmp
          | eq =>
              have hchar : a = b := Char.toNat_inj.mp (compare_eq_iff_eq.mp hcmp)
              exact (ih bs).trans (by simp [hchar])

/-- `strcmp` on two strings. -/
theorem compareStrings (s t : BreadString) :
    (strcmp (cString s) (cString t) == .eq) = (cString s == cString t) := by
  rw [Bool.eq_iff_iff, beq_iff_eq, beq_iff_eq, strcmp_eq_iff]

/-- The search of a dictionary with one slot ends there or nowhere. -/
theorem findSlot_singleton :
    (BreadDict.singleton a value).findSlot b =
      .ok (if keysEqual a b then some 0 else none) := by
  have hstart : (BreadDict.singleton a value).startSlot b = 0 := by
    rw [startSlot]
    exact Nat.mod_one _
  have hcapacity : (BreadDict.singleton a value).capacity ≠ 0 := Int.one_ne_zero
  rw [findSlot, if_neg hcapacity, hstart]
  cases hequal : keysEqual a b <;>
    simp [findSlotLoop, entryAt, BreadDict.singleton, hequal, bind, Except.bind, pure, Except.pure]

theorem contains_singleton : (BreadArray.singleton a).contains b = keysEqual a b := by
  simp [BreadArray.contains, BreadArray.singleton]

theorem indexOf_singleton :
    (BreadArray.singleton a).indexOf b = if keysEqual a b then some 0 else none := by
  cases hequal : keysEqual a b <;>
    simp [BreadArray.indexOf, BreadArray.singleton, hequal]

end Comparisons

/-! ### Values that the comparisons agree on -/

/-- The two are not one object, nor different strings with the same bytes before the first
NUL. -/
structure ComparedAlike (a b : BreadValue) : Prop where
  objects : a.type.isObject = true → a ≠ b
  strings : ∀ s t, a = .string s → b = .string t → cString s = cString t → s = t

/-- **Equality is one relation** on the two values: every comparison that gives an answer
gives that of `bread_eq`, and keys that are equal have one hash. -/
structure EqualityAgrees (near : DoubleBits → DoubleBits → Bool) (ops : DoubleOps)
    (a b : BreadValue) : Prop where
  equal : ∀ x, breadBinaryOp ops '=' a b = .ok (.bool x) → x = breadEq near a b
  different : ∀ x, breadBinaryOp ops '!' a b = .ok (.bool x) → (!x) = breadEq near a b
  contains : (BreadArray.singleton a).contains b = breadEq near a b
  indexOf : (BreadArray.singleton a).indexOf b = if breadEq near a b then some 0 else none
  findSlot : ∀ value, (BreadDict.singleton a value).findSlot b =
    .ok (if breadEq near a b then some 0 else none)
  hashKey : keysEqual a b = true → hashKey a = hashKey b

section Agreement

variable {near : DoubleBits → DoubleBits → Bool} {ops : DoubleOps} {a b : BreadValue}

/-- No search finds an object. -/
theorem keysEqual_object (hobject : a.type.isObject = true) : keysEqual a b = false := by
  cases a <;> cases hobject <;> rfl

/-- An object is equal to itself alone. -/
theorem breadEq_object (htype : a.type = b.type) (hobject : a.type.isObject = true) :
    breadEq near a b = decide (a = b) := by
  cases a <;> cases hobject <;> cases b <;> cases htype <;> simp [breadEq, beq_eq_decide]

theorem compareValues_object (htype : a.type = b.type) (hobject : a.type.isObject = true) :
    breadCompareValues ops '=' a b = some (decide (a = b)) ∧
      breadCompareValues ops '!' a b = some !(decide (a = b)) := by
  cases a <;> cases hobject <;> cases b <;> cases htype <;>
    simp [breadCompareValues, compareRefs, bne, beq_eq_decide]

/-- Two values of a type that every comparison knows. -/
theorem comparedAlike_of_type (hobject : a.type.isObject = false)
    (hstring : a.type ≠ .typeString) : ComparedAlike a b where
  objects h := absurd (hobject.symm.trans h) Bool.false_ne_true
  strings _ _ ha := absurd (congrArg BreadValue.type ha) hstring

theorem comparedAlike_string_iff {s t : BreadString} :
    ComparedAlike (.string s) (.string t) ↔ (cString s = cString t → s = t) := by
  refine ⟨fun h => h.strings s t rfl rfl, fun h => ⟨fun hobject => ?_, fun s' t' hs ht => ?_⟩⟩
  · cases hobject
  · cases hs
    cases ht
    exact h

theorem comparedAlike_object_iff (hobject : a.type.isObject = true) :
    ComparedAlike a b ↔ a ≠ b := by
  refine ⟨fun h => h.objects hobject, fun hne => ⟨fun _ => hne, ?_⟩⟩
  rintro s t rfl
  cases hobject

/-- The comparison of the bytes before a NUL with that of all bytes. -/
theorem cString_beq_iff {s t : BreadString} :
    ((cString s == cString t) = (s == t)) ↔ (cString s = cString t → s = t) := by
  rw [Bool.eq_iff_iff, beq_iff_eq, beq_iff_eq]
  exact ⟨fun h => h.mp, fun h => ⟨h, fun heq => by rw [heq]⟩⟩

/-- The searches compare as `bread_eq` does. -/
theorem keysEqual_eq_breadEq_iff (htype : a.type = b.type) (hdouble : a.type ≠ .typeDouble) :
    keysEqual a b = breadEq near a b ↔ ComparedAlike a b := by
  by_cases hobject : a.type.isObject = true
  · rw [keysEqual_object hobject, breadEq_object htype hobject, comparedAlike_object_iff hobject,
      eq_comm, decide_eq_false_iff_not]
  cases a with
  | string s =>
      cases b with
      | string t => exact cString_beq_iff.trans comparedAlike_string_iff.symm
      | _ => cases htype
  | nil =>
      cases b with
      | nil => exact iff_of_true rfl (comparedAlike_of_type rfl nofun)
      | _ => cases htype
  | int m =>
      cases b with
      | int n => exact iff_of_true rfl (comparedAlike_of_type rfl nofun)
      | _ => cases htype
  | bool p =>
      cases b with
      | bool q => exact iff_of_true rfl (comparedAlike_of_type rfl nofun)
      | _ => cases htype
  | double d => exact absurd rfl hdouble
  | _ => exact absurd rfl hobject

/-- The operators compare as the searches do, but for objects and for nil. -/
theorem compareValues_eq (htype : a.type = b.type) (hdouble : a.type ≠ .typeDouble)
    (hobject : a.type.isObject = false) (hnil : a.type ≠ .typeNil) :
    breadCompareValues ops '=' a b = some (keysEqual a b) ∧
      breadCompareValues ops '!' a b = some !(keysEqual a b) := by
  cases a with
  | string s =>
      cases b with
      | string t =>
          rw [breadCompareValues, keysEqual, ← compareStrings]
          exact ⟨rfl, rfl⟩
      | _ => cases htype
  | int m =>
      cases b with
      | int n =>
          have hcompare : (compare m.val n.val == .eq) = (m == n) := by
            rw [Bool.eq_iff_iff, beq_iff_eq, beq_iff_eq, Int.compare_eq_eq]
            exact ⟨fun h => by cases m; cases n; cases h; rfl, fun h => by rw [h]⟩
          rw [breadCompareValues, keysEqual, ← hcompare]
          exact ⟨rfl, rfl⟩
      | _ => cases htype
  | bool p =>
      cases b with
      | bool q => cases p <;> cases q <;> exact ⟨rfl, rfl⟩
      | _ => cases htype
  | nil => exact absurd rfl hnil
  | double d => exact absurd rfl hdouble
  | _ => cases hobject

/-- The answers of the operators `=` and `!`. -/
theorem breadBinaryOp_compare {x : Bool} :
    (breadBinaryOp ops '=' a b = .ok (.bool x) ↔ breadCompareValues ops '=' a b = some x) ∧
      (breadBinaryOp ops '!' a b = .ok (.bool x) ↔ breadCompareValues ops '!' a b = some x) := by
  constructor
  · show Except.ok ((breadCompareValues ops '=' a b).elim BreadValue.nil .bool) = _ ↔ _
    cases breadCompareValues ops '=' a b <;> simp
  · show Except.ok ((breadCompareValues ops '!' a b).elim BreadValue.nil .bool) = _ ↔ _
    cases breadCompareValues ops '!' a b <;> simp

/-- An answer of an operator is that of `bread_eq`. -/
theorem compareValues_alike (htype : a.type = b.type) (hdouble : a.type ≠ .typeDouble)
    (halike : ComparedAlike a b) {x : Bool} :
    (breadCompareValues ops '=' a b = some x → x = breadEq near a b) ∧
      (breadCompareValues ops '!' a b = some x → (!x) = breadEq near a b) := by
  by_cases hnil : a.type = .typeNil
  · cases a with
    | nil => exact ⟨nofun, nofun⟩
    | _ => cases hnil
  have hvalues : breadCompareValues ops '=' a b = some (breadEq near a b) ∧
      breadCompareValues ops '!' a b = some !(breadEq near a b) := by
    by_cases hobject : a.type.isObject = true
    · rw [breadEq_object htype hobject]
      exact compareValues_object htype hobject
    · rw [← (keysEqual_eq_breadEq_iff htype hdouble).mpr halike]
      exact compareValues_eq htype hdouble (by simpa using hobject) hnil
  rw [hvalues.1, hvalues.2]
  refine ⟨fun h => (Option.some.inj h).symm, fun h => ?_⟩
  rw [← Option.some.inj h, Bool.not_not]

/-- Keys that are equal have one hash, when equality is that of all bytes. -/
theorem hashKey_of_keysEqual (halike : ComparedAlike a b) (hequal : keysEqual a b = true)
    (hdouble : a.type ≠ .typeDouble) : hashKey a = hashKey b := by
  cases a with
  | double d => exact absurd rfl hdouble
  | string s =>
      cases b with
      | string t =>
          rw [comparedAlike_string_iff.mp halike (beq_iff_eq.mp hequal)]
      | _ => cases hequal
  | int m =>
      cases b with
      | int n => rw [beq_iff_eq.mp hequal]
      | _ => cases hequal
  | bool p =>
      cases b with
      | bool q => rw [beq_iff_eq.mp hequal]
      | _ => cases hequal
  | nil =>
      cases b with
      | nil => rfl
      | _ => cases hequal
  | _ => cases hequal

theorem equalityAgrees_iff (htype : a.type = b.type) (hdouble : a.type ≠ .typeDouble) :
    EqualityAgrees near ops a b ↔ ComparedAlike a b := by
  have hkeys := @keysEqual_eq_breadEq_iff near a b htype hdouble
  refine ⟨fun h => hkeys.mp ?_, fun halike => ?_⟩
  · rw [← h.contains, contains_singleton]
  · have hsame := hkeys.mpr halike
    have hcompare := @compareValues_alike near ops a b htype hdouble halike
    exact {
      equal := fun x h => hcompare.1 (breadBinaryOp_compare.1.mp h)
      different := fun x h => hcompare.2 (breadBinaryOp_compare.2.mp h)
      contains := by rw [contains_singleton, hsame]
      indexOf := by rw [indexOf_singleton, hsame]
      findSlot := fun value => by rw [findSlot_singleton, hsame]
      hashKey := fun h => hashKey_of_keysEqual halike h hdouble }

end Agreement

/-! ### Keys that have been stored -/

/-- **A stored key is found**: the search after `bread_dict_set_safe` ends in a live slot that
holds the value. -/
def FoundWhenStored (key : BreadValue) : Prop :=
  ∀ (d : BreadDict) (value : BreadValue) (d' : BreadDict),
    d.setSafe key value = .ok (d', .ok ()) →
    ∃ slot entry, d'.findSlot key = .ok (some slot) ∧ d'.entries[slot]? = some entry ∧
      entry.isLive = true ∧ entry.value = value

section Stored

variable {d : BreadDict} {key value : BreadValue} {entry : BreadDictEntry} {slot : ℕ}

/-- The test of the search at one entry. -/
def BreadDictEntry.stops (entry : BreadDictEntry) (key : BreadValue) : Bool :=
  !entry.isOccupied || entry.isDeleted || keysEqual entry.key key

/-- One turn of the search. -/
theorem findSlotLoop_succ (start n : ℕ) (he : d.entries[slot]? = some entry) :
    d.findSlotLoop key start (n + 1) slot =
      if entry.stops key then .ok (some slot)
      else if (slot + 1) % d.capacity.toNat = start then .ok none
      else d.findSlotLoop key start n ((slot + 1) % d.capacity.toNat) := by
  rw [findSlotLoop, entryAt, he, BreadDictEntry.stops]
  cases ho : entry.isOccupied <;> cases hdel : entry.isDeleted <;>
    cases heq : keysEqual entry.key key <;> simp [ho, hdel, heq, bind, Except.bind, pure, Except.pure]

/-- The search ends in an entry that passes the test. -/
theorem stops_of_findSlotLoop {start n : ℕ} {current : ℕ}
    (h : d.findSlotLoop key start n current = .ok (some slot)) :
    ∃ entry, d.entries[slot]? = some entry ∧ entry.stops key = true := by
  induction n generalizing current with
  | zero => cases h
  | succ n ih =>
      cases he : d.entries[current]? with
      | none =>
          rw [findSlotLoop, entryAt, he] at h
          cases h
      | some entry =>
          rw [findSlotLoop_succ start n he] at h
          by_cases hstop : entry.stops key = true
          · rw [if_pos hstop] at h
            cases h
            exact ⟨entry, he, hstop⟩
          · rw [if_neg hstop] at h
            split at h
            · cases h
            · exact ih h

/-- After a write to the entry in which the search ended, it ends there again. -/
theorem findSlotLoop_set {start n : ℕ} {current : ℕ} {d' : BreadDict} {new : BreadDictEntry}
    (hentries : d'.entries = d.entries.set slot new) (hcapacity : d'.capacity = d.capacity)
    (hnew : new.stops key = true) (h : d.findSlotLoop key start n current = .ok (some slot)) :
    d'.findSlotLoop key start n current = .ok (some slot) := by
  induction n generalizing current with
  | zero => cases h
  | succ n ih =>
      cases he : d.entries[current]? with
      | none =>
          rw [findSlotLoop, entryAt, he] at h
          cases h
      | some entry =>
          rw [findSlotLoop_succ start n he] at h
          by_cases hsame : current = slot
          · subst hsame
            have hlt := (List.getElem?_eq_some_iff.mp he).1
            have hset : d'.entries[current]? = some new := by
              rw [hentries, List.getElem?_set_self hlt]
            rw [findSlotLoop_succ start n hset, if_pos hnew]
          · have hkept : d'.entries[current]? = some entry := by
              rw [hentries, List.getElem?_set_ne (Ne.symm hsame), he]
            rw [findSlotLoop_succ start n hkept, hcapacity]
            by_cases hstop : entry.stops key = true
            · rw [if_pos hstop] at h
              cases h
              exact absurd rfl hsame
            · rw [if_neg hstop] at h ⊢
              split at h
              · cases h
              · rename_i hnext
                rw [if_neg hnext]
                exact ih h

theorem findSlot_eq_some_iff :
    d.findSlot key = .ok (some slot) ↔ d.capacity ≠ 0 ∧
      d.findSlotLoop key (d.startSlot key) (d.entries.length + 1) (d.startSlot key) =
        .ok (some slot) := by
  rw [findSlot]
  by_cases hcapacity : d.capacity = 0
  · rw [if_pos hcapacity]
    exact iff_of_false (fun h => by cases h) fun h => h.1 hcapacity
  · rw [if_neg hcapacity]
    exact ⟨fun h => ⟨hcapacity, h⟩, And.right⟩

/-- A store that returns 1 has found a slot and written to it. -/
theorem setSafe_ok {d' : BreadDict} (h : d.setSafe key value = .ok (d', .ok ())) :
    ∃ (d₁ : BreadDict) (slot : ℕ), d₁.findSlot key = .ok (some slot) ∧
      d₁.storeAt slot key value = .ok d' := by
  rw [setSafe] at h
  split at h
  · cases h
  split at h
  · cases h
  obtain ⟨d₁, -, h⟩ := bind_eq_ok.mp h
  obtain ⟨found, hfind, h⟩ := bind_eq_ok.mp h
  cases found with
  | none => cases h
  | some slot =>
      obtain ⟨d'', hstore, h⟩ := bind_eq_ok.mp h
      cases h
      exact ⟨d₁, slot, hfind, hstore⟩

/-- The entry that a store leaves. -/
theorem storeAt_ok {d' : BreadDict} (hkey : keysEqual key key = true)
    (he : d.entries[slot]? = some entry) (hstops : entry.stops key = true)
    (h : d.storeAt slot key value = .ok d') :
    ∃ new : BreadDictEntry, d'.entries = d.entries.set slot new ∧ d'.capacity = d.capacity ∧
      new.isLive = true ∧ new.value = value ∧ new.stops key = true := by
  rw [storeAt, entryAt, he] at h
  cases hlive : entry.isLive with
  | true =>
      have hlive' : entry.isOccupied = true ∧ entry.isDeleted = false := by
        simpa [BreadDictEntry.isLive] using hlive
      refine ⟨{ entry with value := value }, ?_, ?_, hlive, rfl, hstops⟩ <;>
      · simp [hlive, bind, Except.bind, pure, Except.pure] at h
        rw [← h]
  | false =>
      refine ⟨⟨key, value, true, false⟩, ?_, ?_, rfl, rfl, by simp [BreadDictEntry.stops, hkey]⟩ <;>
      · simp [hlive, bind, Except.bind, pure, Except.pure] at h
        rw [← h]

theorem foundWhenStored_of_equal (hkey : keysEqual key key = true) : FoundWhenStored key := by
  intro d value d' h
  obtain ⟨d₁, slot, hfind, hstore⟩ := setSafe_ok h
  obtain ⟨hcapacity, hloop⟩ := findSlot_eq_some_iff.mp hfind
  obtain ⟨entry, he, hstops⟩ := stops_of_findSlotLoop hloop
  obtain ⟨new, hentries, hsame, hlive, hvalue, hnew⟩ := storeAt_ok hkey he hstops hstore
  have hlt := (List.getElem?_eq_some_iff.mp he).1
  have hstart : d'.startSlot key = d₁.startSlot key := by rw [startSlot, startSlot, hsame]
  have hlength : d'.entries.length = d₁.entries.length := by rw [hentries, List.length_set]
  refine ⟨slot, new, findSlot_eq_some_iff.mpr ⟨hsame ▸ hcapacity, ?_⟩, ?_, hlive, hvalue⟩
  · rw [hstart, hlength]
    exact findSlotLoop_set hentries hsame hnew hloop
  · rw [hentries, List.getElem?_set_self hlt]

/-- An object is stored as the first key of a dictionary. -/
theorem setSafe_new (hobject : key.type.isObject = true) :
    ∃ d', BreadDict.new.setSafe key .nil = .ok (d', .ok ()) := by
  cases key <;> cases hobject <;> exact ⟨_, rfl⟩

theorem not_foundWhenStored (hobject : key.type.isObject = true) : ¬ FoundWhenStored key := by
  intro hfound
  have hkey : ∀ k, keysEqual k key = false := by
    intro k
    cases key <;> cases hobject <;> cases k <;> rfl
  obtain ⟨d', hset⟩ := setSafe_new hobject
  obtain ⟨slot, entry, hfind, he, hlive, -⟩ := hfound _ _ _ hset
  obtain ⟨entry', he', hstops⟩ := stops_of_findSlotLoop (findSlot_eq_some_iff.mp hfind).2
  cases he.symm.trans he'
  have hlive' : entry.isOccupied = true ∧ entry.isDeleted = false := by
    simpa [BreadDictEntry.isLive] using hlive
  rw [BreadDictEntry.stops, hlive'.1, hlive'.2, hkey] at hstops
  cases hstops

theorem foundWhenStored_iff (hdouble : key.type ≠ .typeDouble) :
    FoundWhenStored key ↔ key.type.isObject = false := by
  by_cases hobject : key.type.isObject = true
  · exact iff_of_false (not_foundWhenStored hobject) fun h =>
      absurd (hobject.symm.trans h) Bool.true_eq_false.mp
  · refine iff_of_true (foundWhenStored_of_equal ?_) (by simpa using hobject)
    cases key with
    | double d => exact absurd rfl hdouble
    | nil => rfl
    | int n => exact beq_self_eq_true n
    | bool b => exact beq_self_eq_true b
    | string s => exact beq_self_eq_true (cString s)
    | _ => exact absurd rfl hobject

end Stored

end BreadLang
