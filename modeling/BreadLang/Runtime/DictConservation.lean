import BreadLang.Runtime.Conservation

/-!
# The references of the constructors and mutators of dictionaries

Three operations may lose references, which remain owed to nobody: setting a value, when
the growth of the table puts an entry where another one is; a literal with a repeated
key; and the keys of a dictionary as a value.  `ConservesIf` states what they do together with
the condition under which nothing is lost, which is that the code does not reach the
place where it is.
-/

namespace BreadLang

open RefCount

/-! ### Tables -/

/-- The references that a table holds. -/
def DictBody.refs (d : DictBody) : List Ref :=
  d.entries.flatMap HeapEntry.refs

/-- The references that the entry of a slot holds. -/
def DictBody.slotRefs (d : DictBody) (slot : ℕ) : List Ref :=
  (d.entries[slot]?.map HeapEntry.refs).getD []

section Tables

variable {h h' : ObjectHeap} {owed lost : List Ref} {r x : Ref} {d d' d₀ : DictBody} {slot : ℕ}
  {e entry : HeapEntry} {key value v : HeapValue}

theorem children_dict (d : DictBody) : (ObjectBody.dict d).children = d.refs := rfl

theorem slotRefs_eq (he : d.entries[slot]? = some e) : d.slotRefs slot = e.refs := by
  rw [DictBody.slotRefs, he]
  rfl

theorem refs_of_not_isLive (he : e.isLive = false) : e.refs = [] := by
  simp [HeapEntry.refs, he]

theorem refs_live (key value : HeapValue) :
    (HeapEntry.mk key value true false).refs = key.refs ++ value.refs := rfl

/-- Setting an entry exchanges the references that it holds. -/
theorem refs_setEntry (he : d.entries[slot]? = some e) (entry : HeapEntry) (x : Ref) :
    (d.setEntry slot entry).refs.count x + e.refs.count x =
      d.refs.count x + entry.refs.count x :=
  count_flatMap_set he

theorem refs_addEntry (he : d.entries[slot]? = some e) (entry : HeapEntry) (x : Ref) :
    (d.addEntry slot entry).refs.count x + e.refs.count x =
      d.refs.count x + entry.refs.count x :=
  count_flatMap_set he

theorem refs_new (capacity : ℤ) (keyType valueType : VarType) :
    (DictBody.new capacity keyType valueType).refs = [] := by
  simp [DictBody.refs, DictBody.new, List.flatMap_replicate, HeapEntry.refs, HeapEntry.zero,
    HeapEntry.isLive]

theorem refs_adoptTypes (d : DictBody) (key value : HeapValue) :
    (d.adoptTypes key value).refs = d.refs := rfl

theorem refs_cleared (d : DictBody) : d.cleared.refs = [] := by
  rw [DictBody.refs, List.flatMap_eq_nil_iff]
  intro e he
  obtain ⟨e', -, rfl⟩ := List.mem_map.mp he
  refine refs_of_not_isLive ?_
  unfold DictBody.clearEntry
  split <;> rfl

theorem entryAt_spec : Gives (d.entryAt slot) fun e => d.entries[slot]? = some e := by
  unfold DictBody.entryAt
  split
  · exact gives_ok ‹_›
  · exact gives_error

/-- A slot that the probing finds is one of the table. -/
theorem findSlotLoop_spec (start : ℕ) (n : ℕ) :
    Gives (h.findSlotLoop d key start n slot) fun result =>
      ∀ slot, result = some slot → ∃ e, d.entries[slot]? = some e := by
  induction n generalizing slot with
  | zero => exact gives_ok fun _ h => nomatch h
  | succ n ih =>
      refine gives_bind entryAt_spec fun entry hentry => ?_
      have hfound : ∀ slot', some slot = some slot' → ∃ e, d.entries[slot']? = some e := by
        rintro _ ⟨⟩
        exact ⟨entry, hentry⟩
      split
      · exact gives_pure hfound
      split
      · exact gives_pure hfound
      refine gives_bind_any fun equal => ?_
      split
      · exact gives_pure hfound
      dsimp only
      split
      · exact gives_pure fun _ h => nomatch h
      · exact ih

theorem findSlot_spec : Gives (h.findSlot d key) fun result =>
    ∀ slot, result = some slot → ∃ e, d.entries[slot]? = some e := by
  unfold ObjectHeap.findSlot
  split
  · exact gives_ok fun _ h => nomatch h
  · exact gives_bind_any fun hash => findSlotLoop_spec _ _

/-- The probing looks at nothing but the strings of the heap. -/
theorem findSlotLoop_congr (hstrings : ∀ x, h'.stringAt x = h.stringAt x) (start n : ℕ) :
    h'.findSlotLoop d key start n slot = h.findSlotLoop d key start n slot := by
  have hkeys : ∀ a b, h'.keysEqual a b = h.keysEqual a b := by
    intro a b
    cases a with
    | string a => cases b with
      | string b => cases a <;> cases b <;> simp [ObjectHeap.keysEqual, hstrings]
      | _ => simp [ObjectHeap.keysEqual]
    | _ => cases b <;> simp [ObjectHeap.keysEqual]
  induction n generalizing slot with
  | zero => rfl
  | succ n ih => simp only [ObjectHeap.findSlotLoop, hkeys, ih]

theorem findSlot_congr (hstrings : ∀ x, h'.stringAt x = h.stringAt x) :
    h'.findSlot d key = h.findSlot d key := by
  have hhash : h'.hashKey key = h.hashKey key := by
    cases key with
    | string r => cases r <;> simp [ObjectHeap.hashKey, hstrings]
    | _ => rfl
  simp only [ObjectHeap.findSlot, hhash, findSlotLoop_congr hstrings]

end Tables

/-! ### What the growth of a table and a literal keep -/

namespace ObjectHeap

/-- Every entry that `bread_dict_resize` moves is put where nothing is lost: into a slot
whose entry holds no reference.  An entry that finds no slot is lost itself. -/
def resizeKeeps (h : ObjectHeap) : List HeapEntry → DictBody → Bool
  | [], _ => true
  | entry :: rest, d =>
      if entry.isLive then
        match h.findSlot d entry.key with
        | .ok (some slot) =>
            (d.slotRefs slot).isEmpty && h.resizeKeeps rest (d.addEntry slot entry)
        | _ => entry.refs.isEmpty && h.resizeKeeps rest d
      else h.resizeKeeps rest d

/-- The growth of `bread_dict_set_safe`, if there is one, keeps every reference. -/
def growthKeeps (h : ObjectHeap) (d : DictBody) : Bool :=
  match d.header.needsGrowth, d.header.grownCapacity with
  | true, .ok newCapacity =>
      newCapacity ≤ 0 || h.resizeKeeps d.entries (d.emptied newCapacity)
  | _, _ => true

/-- `bread_dict_set_safe` on this dictionary keeps every reference. -/
def setSafeKeeps (h : ObjectHeap) (d : Option Ref) (key value : HeapValue) : Bool :=
  match d.bind h.body with
  | some (.dict d) =>
      DictBody.mismatch d.keyType key || DictBody.mismatch d.valueType value ||
        h.growthKeeps (d.adoptTypes key value)
  | _ => true

/-- Every pair of a literal is put where nothing is lost. -/
def pairsKeep (h : ObjectHeap) : List (HeapValue × HeapValue) → DictBody → Bool
  | [], _ => true
  | (key, value) :: rest, d =>
      match h.findSlot d key with
      | .ok (some slot) =>
          (d.slotRefs slot).isEmpty &&
            h.pairsKeep rest (d.addEntry slot ⟨key, value, true, false⟩)
      | _ => h.pairsKeep rest d

/-- An empty array of this element type refuses one of the values. -/
def appendRefused (elementType : VarType) : List HeapValue → Bool
  | [] => false
  | v :: vs =>
      DictBody.mismatch elementType v ||
        vs.any (DictBody.mismatch (if elementType = .typeNil then v.type else elementType))

/-- `bread_value_dict_keys_as_value` keeps every reference: it gets no array, because
there is no dictionary or because the keys differ in type. -/
def asValueKeeps (h : ObjectHeap) : HeapValue → Bool
  | .dict (some r) =>
      match h.body r with
      | some (.dict d) =>
          appendRefused d.keyType ((d.entries.filter HeapEntry.isLive).map HeapEntry.key)
      | _ => true
  | _ => true

/-- `bread_dict_from_literal` of these pairs keeps every reference. -/
def literalKeeps (h : ObjectHeap) (pairs : List (HeapValue × HeapValue)) : Bool :=
  match literalMismatch (literalTypes pairs).1 (literalTypes pairs).2 pairs,
      BreadDict.literalCapacity pairs.length with
  | none, .ok capacity =>
      h.pairsKeep pairs (.new capacity (literalTypes pairs).1 (literalTypes pairs).2)
  | _, _ => true

end ObjectHeap

section Growth

variable {h : ObjectHeap} {d : DictBody}

/-- A table holds the references of another one, but for some that are lost. -/
def Loses (d' : DictBody) (refs lost : List Ref) : Prop :=
  ∀ x, d'.refs.count x + lost.count x = refs.count x

theorem loses_nothing (d : DictBody) : Loses d d.refs [] :=
  fun _ => rfl

/-- **The loop of `bread_dict_resize`.**  The induction is on the old entries. -/
theorem resizeLoop_spec (entries : List HeapEntry) (d : DictBody) :
    Gives (h.resizeLoop entries d) fun d' => ∃ lost,
      Loses d' (d.refs ++ entries.flatMap HeapEntry.refs) lost ∧
        (h.resizeKeeps entries d = true → lost = []) := by
  induction entries generalizing d with
  | nil => exact gives_ok ⟨[], fun x => by simp, fun _ => rfl⟩
  | cons entry rest ih =>
      rw [ObjectHeap.resizeLoop, ObjectHeap.resizeKeeps]
      by_cases hlive : entry.isLive = true
      · rw [if_pos hlive, if_pos hlive]
        cases hfind : h.findSlot d entry.key with
        | error e => exact gives_error
        | ok found =>
            have hfound := findSlot_spec _ hfind
            cases found with
            | none =>
                refine (ih d).mono ?_
                rintro d' ⟨lost, hloses, hkeeps⟩
                refine ⟨entry.refs ++ lost, fun x => ?_, fun hclear => ?_⟩
                · have hx := hloses x
                  simp only [List.flatMap_cons, List.count_append] at hx ⊢
                  omega
                · rw [Bool.and_eq_true, List.isEmpty_iff] at hclear
                  rw [hclear.1, hkeeps hclear.2, List.append_nil]
            | some slot =>
                obtain ⟨e, he⟩ := hfound slot rfl
                refine (ih (d.addEntry slot entry)).mono ?_
                rintro d' ⟨lost, hloses, hkeeps⟩
                refine ⟨e.refs ++ lost, fun x => ?_, fun hclear => ?_⟩
                · have hx := hloses x
                  have hadd := refs_addEntry he entry x
                  simp only [List.flatMap_cons, List.count_append] at hx ⊢
                  omega
                · rw [Bool.and_eq_true, List.isEmpty_iff, slotRefs_eq he] at hclear
                  rw [hclear.1, hkeeps hclear.2, List.append_nil]
      · rw [if_neg hlive, if_neg hlive]
        refine (ih d).mono ?_
        rintro d' ⟨lost, hloses, hkeeps⟩
        refine ⟨lost, fun x => ?_, hkeeps⟩
        have hx := hloses x
        rw [List.flatMap_cons, refs_of_not_isLive (by simpa using hlive)]
        simpa using hx

theorem growIfNeeded_spec (d : DictBody) :
    Gives (h.growIfNeeded d) fun d' => ∃ lost,
      Loses d' d.refs lost ∧ (h.growthKeeps d = true → lost = []) := by
  unfold ObjectHeap.growIfNeeded ObjectHeap.growthKeeps
  cases hneeds : d.header.needsGrowth with
  | false => exact gives_ok ⟨[], fun x => by simp, fun _ => rfl⟩
  | true =>
      rw [if_pos rfl]
      cases hgrown : d.header.grownCapacity with
      | error e => exact gives_error
      | ok newCapacity =>
          show Gives (if newCapacity ≤ 0 then pure d else _) _
          split
          · exact gives_pure ⟨[], fun x => by simp, fun _ => rfl⟩
          · rename_i hpositive
            refine (resizeLoop_spec d.entries (d.emptied newCapacity)).mono ?_
            rintro d' ⟨lost, hloses, hkeeps⟩
            refine ⟨lost, fun x => ?_, fun hclear => hkeeps ?_⟩
            · have hx := hloses x
              rwa [DictBody.emptied, refs_new, List.nil_append] at hx
            · simpa [hpositive] using hclear

end Growth

/-! ### Dictionaries -/

section Dictionaries

variable {S : Set Ref} {h : ObjectHeap} {owed lost : List Ref} {r : Ref} {d d₀ : DictBody}
  {slot : ℕ}
  {e : HeapEntry} {key value v : HeapValue}

/-- References that may be lost: they are owed besides the others, and there are none
under a condition. -/
def ConservesIf (S : Set Ref) (condition : Prop) (owed : List Ref) (h : ObjectHeap) : Prop :=
  ∃ lost, Balanced S h (lost ++ owed) ∧ (condition → lost = [])

theorem ConservesIf.of_balanced {condition : Prop} (hb : Balanced S h owed) : ConservesIf S condition owed h :=
  ⟨[], hb, fun _ => rfl⟩

theorem getDict_spec : Gives (h.getDict r) fun d => h.body r = some (.dict d) := by
  unfold ObjectHeap.getDict
  split
  · exact gives_ok ‹_›
  · exact gives_error

theorem writeDict_spec (owed' : List Ref) (hb : Balanced S h owed)
    (hbody : h.body r = some (.dict d₀))
    (howed : ∀ x, owed'.count x + d.refs.count x = owed.count x + d₀.refs.count x) :
    Gives (h.write r (.dict d)) fun h' => Balanced S h' owed' ∧ h'.body r = some (.dict d) := by
  refine write_spec _ hb fun b hb' => ?_
  rw [hbody] at hb'
  cases hb'
  exact ⟨id, howed⟩

theorem setEntryValue_spec (hb : Balanced S h owed) (hbody : h.body r = some (.dict d₀))
    (hloses : Loses d d₀.refs lost) (he : d.entries[slot]? = some e) (hlive : e.isLive = true)
    (v : HeapValue) :
    Gives (h.setEntryValue r d slot e v) fun h' => Balanced S h' (lost ++ owed) := by
  have hrefs : ∀ w : HeapValue,
      HeapEntry.refs { e with value := w } = e.key.refs ++ w.refs := by
    intro w
    exact if_pos hlive
  have hnil := refs_setEntry he { e with value := .nil }
  have hnew := refs_setEntry he { e with value := v }
  have hold : e.refs = e.key.refs ++ e.value.refs := hrefs e.value
  rw [hold] at hnil hnew
  simp only [hrefs, List.count_append, refs_nil, List.count_nil] at hnil hnew
  refine replaceValue_spec _ hb id (fun b hb' => ?_) fun x => ?_
  · rw [hbody] at hb'
    cases hb'
    refine ⟨id, fun x => ?_⟩
    have hx := hloses x
    have hx' := hnil x
    simp only [children_dict]
    omega
  · have hx := hnil x
    have hx' := hnew x
    simp only [children_dict]
    omega

/-- An object that is no string may change without changing a string. -/
theorem stringAt_congr {h' : ObjectHeap} (hbody : h.body r = some (.dict d₀))
    (hbody' : h'.body r = some (.dict d)) (hother : ∀ x, x ≠ r → h'.body x = h.body x) (x : Ref) :
    h'.stringAt x = h.stringAt x := by
  unfold ObjectHeap.stringAt
  by_cases hx : x = r
  · rw [hx, hbody, hbody']
  · rw [hother x hx]

theorem fillSlot_spec (hb : Balanced S h owed) (hbody : h.body r = some (.dict d₀))
    (hloses : Loses d d₀.refs lost) (he : d.entries[slot]? = some e) (key value : HeapValue) :
    Gives (h.fillSlot r d slot key value) fun h' => Balanced S h' (e.refs ++ (lost ++ owed)) ∧
      h'.body r = some (.dict (d.addEntry slot ⟨key, value, true, false⟩)) ∧
      ∀ x, h'.stringAt x = h.stringAt x := by
  refine gives_bind (valueClone_spec hb) ?_
  rintro h₁ ⟨hb₁, hsame₁⟩
  refine gives_bind (valueClone_spec hb₁) ?_
  rintro h₂ ⟨hb₂, hsame₂⟩
  have hsame : h₂.body = h.body := hsame₂.trans hsame₁
  refine ((writeDict_spec (e.refs ++ (lost ++ owed)) hb₂ (hsame ▸ hbody)
    fun x => ?_).and body_write_of_ne).mono ?_
  · have hx := hloses x
    have hadd := refs_addEntry he ⟨key, value, true, false⟩ x
    rw [refs_live] at hadd
    simp only [List.count_append] at hadd ⊢
    omega
  · rintro h' ⟨⟨hb', hbody'⟩, hother⟩
    rw [hsame] at hother
    exact ⟨hb', hbody', stringAt_congr hbody hbody' hother⟩

/-- **Setting a value** loses what the growth of the table loses. -/
theorem dictSetSafe_spec (hb : Balanced S h owed) (d : Option Ref) (key value : HeapValue) :
    Gives (h.dictSetSafe d key value) fun result =>
      ConservesIf S (h.setSafeKeeps d key value = true) owed result.1 := by
  cases d with
  | none => exact gives_error
  | some r =>
      refine gives_bind getDict_spec fun d₀ hbody => ?_
      have hclear : h.setSafeKeeps (some r) key value =
          (DictBody.mismatch d₀.keyType key || DictBody.mismatch d₀.valueType value ||
            h.growthKeeps (d₀.adoptTypes key value)) := by
        simp [ObjectHeap.setSafeKeeps, hbody]
      rw [hclear]
      split
      · exact gives_pure (.of_balanced hb)
      rename_i hkey
      split
      · exact gives_pure (.of_balanced hb)
      rename_i hvalue
      refine gives_bind (growIfNeeded_spec _) ?_
      rintro d ⟨lost, hloses, hkeeps⟩
      have hlost : (DictBody.mismatch d₀.keyType key || DictBody.mismatch d₀.valueType value ||
          h.growthKeeps (d₀.adoptTypes key value)) = true → lost = [] := by
        intro hclear
        simp only [Bool.not_eq_true] at hkey hvalue
        rw [hkey, hvalue] at hclear
        exact hkeeps hclear
      rw [refs_adoptTypes] at hloses
      refine gives_bind findSlot_spec fun found _ => ?_
      cases found with
      | none => exact gives_error
      | some slot =>
          refine gives_bind entryAt_spec fun e he => ?_
          split
          · rename_i hlive
            refine gives_bind (setEntryValue_spec hb hbody hloses he hlive value) ?_
            intro h' hb'
            exact gives_pure ⟨lost, hb', hlost⟩
          · rename_i hlive
            refine gives_bind (fillSlot_spec hb hbody hloses he key value) ?_
            rintro h' ⟨hb', -, -⟩
            rw [refs_of_not_isLive (by simpa using hlive), List.nil_append] at hb'
            exact gives_pure ⟨lost, hb', hlost⟩

/-- **The insertion loop of a literal.**  The induction is on the pairs. -/
theorem storePairs_spec {hstart : ObjectHeap} (pairs : List (HeapValue × HeapValue))
    (hb : Balanced S h owed) (hbody : h.body r = some (.dict d))
    (hstrings : ∀ x, h.stringAt x = hstart.stringAt x) :
    Gives (h.storePairs r d pairs) fun h' =>
      ConservesIf S (hstart.pairsKeep pairs d = true) owed h' := by
  induction pairs generalizing h d owed with
  | nil => exact gives_ok (.of_balanced hb)
  | cons pair rest ih =>
      obtain ⟨key, value⟩ := pair
      rw [ObjectHeap.storePairs, ObjectHeap.pairsKeep, findSlot_congr hstrings]
      cases hfind : hstart.findSlot d key with
      | error e => exact gives_error
      | ok found =>
          have hfound := findSlot_spec _ hfind
          cases found with
          | none => exact ih hb hbody hstrings
          | some slot =>
              obtain ⟨e, he⟩ := hfound slot rfl
              have hfill := fillSlot_spec hb hbody (loses_nothing _) he key value
              refine gives_bind (u := h.fillSlot r d slot key value) hfill ?_
              rintro h' ⟨hb', hbody', hstrings'⟩
              refine (ih hb' hbody' fun x => (hstrings' x).trans (hstrings x)).mono ?_
              rintro h'' ⟨lost, hb'', hkeeps⟩
              refine ⟨lost ++ e.refs, by simpa using hb'', fun hclear => ?_⟩
              rw [Bool.and_eq_true, List.isEmpty_iff, slotRefs_eq he] at hclear
              rw [hclear.1, hkeeps hclear.2]
              rfl

/-- A new dictionary changes no string. -/
theorem stringAt_create (hb : Balanced S h owed) (d : DictBody) (x : Ref) :
    (h.create (.dict d)).2.stringAt x = h.stringAt x := by
  unfold ObjectHeap.stringAt
  by_cases hx : x = h.size
  · have hnone : h.body h.size = none := (hb.ledger.body_iff h.size).mpr (hb.ledger.fresh h.size le_rfl)
    subst hx
    rw [hnone]
    simp [ObjectHeap.create, Heap.alloc]
  · simp [ObjectHeap.create, Heap.alloc, hx]

/-- **A literal** loses the references of the pairs that later ones overwrite. -/
theorem dictFromLiteral_spec (hb : Balanced S h owed) (pairs : List (HeapValue × HeapValue)) :
    Gives (h.dictFromLiteral pairs) fun result =>
      ConservesIf S (h.literalKeeps pairs = true) (result.1.toList ++ owed) result.2.1 := by
  unfold ObjectHeap.dictFromLiteral ObjectHeap.literalKeeps
  dsimp only
  cases ObjectHeap.literalMismatch (ObjectHeap.literalTypes pairs).1
      (ObjectHeap.literalTypes pairs).2 pairs with
  | some e => exact gives_ok (.of_balanced hb)
  | none =>
      cases BreadDict.literalCapacity pairs.length with
      | error e => exact gives_error
      | ok capacity =>
          have hcreate : Balanced S (h.create (.dict (.new capacity (ObjectHeap.literalTypes pairs).1
              (ObjectHeap.literalTypes pairs).2))).2 (h.size :: owed) :=
            create_spec (by rwa [children_dict, refs_new, List.nil_append])
          have hstore := storePairs_spec pairs hcreate (body_create h _) (stringAt_create hb _)
          refine gives_bind (P := fun c => c = capacity) (gives_ok rfl) ?_
          rintro _ rfl
          exact gives_bind hstore fun h' hkeeps => gives_pure hkeeps

/-- A scan finds a slot of the table that passes the test, or there is none. -/
theorem scan_spec {test : HeapEntry → Exec Bool} (i : ℕ) (entries : List HeapEntry) :
    Gives (ObjectHeap.scan test i entries) fun result =>
      (∀ slot, result = some slot →
        ∃ k e, slot = i + k ∧ entries[k]? = some e ∧ test e = .ok true) ∧
      (result = none → ∀ e ∈ entries, test e = .ok false) := by
  induction entries generalizing i with
  | nil => exact gives_ok ⟨fun _ h => (nomatch h), fun _ e he => absurd he List.not_mem_nil⟩
  | cons entry rest ih =>
      refine gives_bind (P := fun b => test entry = .ok b) (fun _ h => h) fun b hb => ?_
      cases b with
      | true =>
          refine gives_pure ⟨?_, fun h => nomatch h⟩
          rintro _ ⟨⟩
          exact ⟨0, entry, rfl, rfl, hb⟩
      | false =>
          refine (ih (i + 1)).mono ?_
          rintro result ⟨hfound, hnone⟩
          refine ⟨fun slot hslot => ?_, fun hresult => ?_⟩
          · obtain ⟨k, e, rfl, he, htest⟩ := hfound slot hslot
            exact ⟨k + 1, e, by omega, he, htest⟩
          · exact List.forall_mem_cons.mpr ⟨hb, hnone hresult⟩

/-- The number of entries of a table that are occupied. -/
def occupiedCount (d : DictBody) : ℕ :=
  d.entries.countP HeapEntry.isOccupied

/-- A moved entry takes one slot more. -/
theorem occupiedCount_addEntry {entry : HeapEntry} (he : d.entries[slot]? = some e)
    (hfree : e.isOccupied = false) (hentry : entry.isOccupied = true) :
    occupiedCount (d.addEntry slot entry) = occupiedCount d + 1 := by
  obtain ⟨hlt, rfl⟩ := List.getElem?_eq_some_iff.mp he
  show (d.entries.set slot entry).countP HeapEntry.isOccupied = _
  rw [List.countP_set hlt, if_pos hentry, if_neg (by simp [hfree])]
  rfl

theorem length_addEntry (d : DictBody) (slot : ℕ) (entry : HeapEntry) :
    (d.addEntry slot entry).entries.length = d.entries.length :=
  List.length_set

/-- **The loop that moves the entries of a table to a larger one** loses nothing: there is
a slot for every entry.  The induction is on the entries that are left. -/
theorem compactLoop_spec (entries : List HeapEntry) (d : DictBody)
    (hroom : entries.countP HeapEntry.isLive + occupiedCount d ≤ d.entries.length) :
    Gives (ObjectHeap.compactLoop entries d) fun d' =>
      Loses d' (d.refs ++ entries.flatMap HeapEntry.refs) [] := by
  induction entries generalizing d with
  | nil => exact gives_ok fun x => by simp
  | cons entry rest ih =>
      rw [ObjectHeap.compactLoop]
      by_cases hlive : entry.isLive = true
      · rw [if_pos hlive]
        rw [List.countP_cons_of_pos hlive] at hroom
        refine gives_bind (scan_spec 0 d.entries) ?_
        rintro found ⟨hfound, hnone⟩
        cases found with
        | none =>
            -- the table would be full
            have hfull : occupiedCount d = d.entries.length := by
              refine List.countP_eq_length.mpr fun e he => ?_
              simpa using hnone rfl e he
            omega
        | some slot =>
            obtain ⟨k, e, hk, he, htest⟩ := hfound slot rfl
            obtain rfl : slot = k := by omega
            have hfree : e.isOccupied = false := by simpa using htest
            have hoccupied : entry.isOccupied = true := by
              rw [HeapEntry.isLive, Bool.and_eq_true] at hlive
              exact hlive.1
            have hcount := occupiedCount_addEntry he hfree hoccupied
            refine (ih (d.addEntry slot entry) ?_).mono fun d' hloses x => ?_
            · rw [length_addEntry]
              omega
            · have hx := hloses x
              have hadd := refs_addEntry he entry x
              rw [refs_of_not_isLive (e := e) (by simp [HeapEntry.isLive, hfree])] at hadd
              simp only [List.flatMap_cons, List.count_append, List.count_nil] at hx hadd ⊢
              omega
      · rw [if_neg hlive]
        rw [List.countP_cons_of_neg hlive] at hroom
        refine (ih d hroom).mono fun d' hloses x => ?_
        have hx := hloses x
        rw [List.flatMap_cons, refs_of_not_isLive (by simpa using hlive)]
        simpa using hx

/-- The table that `bread_dict_set` moves the entries to has room for them. -/
theorem length_le_grownCapacity {newCapacity : ℤ}
    (hgrown : d.header.grownCapacity = .ok newCapacity) (hpositive : ¬ newCapacity < 0) :
    d.entries.length ≤ newCapacity.toNat := by
  rw [d.sized]
  rw [BreadDict.grownCapacity] at hgrown
  split at hgrown
  · rename_i hzero
    rw [show d.capacity = 0 from hzero]
    exact Nat.zero_le _
  · rw [checkedInt] at hgrown
    split at hgrown
    · obtain rfl := Except.ok.inj hgrown
      have hcapacity : d.header.capacity = d.capacity := rfl
      rw [hcapacity] at hpositive ⊢
      omega
    · cases hgrown

theorem compact_emptied_spec {newCapacity : ℤ} (hgrown : d.header.grownCapacity = .ok newCapacity)
    (hpositive : ¬ newCapacity < 0) :
    Gives (ObjectHeap.compactLoop d.entries (d.emptied newCapacity)) fun d' =>
      Loses d' d.refs [] := by
  have hempty : occupiedCount (d.emptied newCapacity) = 0 := by
    refine List.countP_eq_zero.mpr fun e he => ?_
    obtain rfl := List.eq_of_mem_replicate he
    exact Bool.false_ne_true
  have hlive : d.entries.countP HeapEntry.isLive ≤ d.entries.length := List.countP_le_length
  have hgrows := length_le_grownCapacity hgrown hpositive
  refine (compactLoop_spec d.entries (d.emptied newCapacity) ?_).mono fun d' hloses x => ?_
  · rw [hempty, (d.emptied newCapacity).sized]
    show _ ≤ newCapacity.toNat
    omega
  · have hx := hloses x
    rwa [DictBody.emptied, refs_new, List.nil_append] at hx

theorem insertFirstFree_spec {k : Ref} (hb : Balanced S h (k :: owed))
    (hbody : h.body r = some (.dict d₀)) (hloses : Loses d d₀.refs []) (value : HeapValue) :
    Gives (h.insertFirstFree r k d value) fun result => Balanced S result.1 owed := by
  refine gives_bind (scan_spec 0 d.entries) ?_
  rintro found ⟨hfound, -⟩
  cases found with
  | some slot =>
      obtain ⟨i, e, hi, he, htest⟩ := hfound slot rfl
      obtain rfl : slot = i := by omega
      have hfree : e.refs = [] := by
        refine refs_of_not_isLive ?_
        rw [HeapEntry.isLive]
        revert htest
        cases e.isOccupied <;> cases e.isDeleted <;> simp
      refine gives_bind (valueClone_spec hb) ?_
      rintro h₁ ⟨hb₁, hsame⟩
      refine gives_bind (writeDict_spec owed hb₁ (hsame ▸ hbody) fun x => ?_) ?_
      · have hx := hloses x
        have hadd := refs_addEntry he ⟨.string (some k), value, true, false⟩ x
        rw [refs_live, hfree] at hadd
        simp only [HeapValue.refs, HeapValue.ref?, Option.toList_some, List.count_append,
          List.count_cons, List.count_nil] at hx hadd ⊢
        omega
      · rintro h₂ ⟨hb₂, -⟩
        exact gives_pure hb₂
  | none =>
      refine gives_bind (writeDict_spec (k :: owed) hb hbody fun x => ?_) ?_
      · have hx := hloses x
        simp only [List.count_nil] at hx
        omega
      rintro h₁ ⟨hb₁, -⟩
      refine gives_bind (releaseRefs_spec [k] _ hb₁) ?_
      rintro h₂ ⟨hb₂, -⟩
      exact gives_pure hb₂

/-- A call that releases its key string and returns. -/
theorem releaseKey_spec {k : Ref} (hb : Balanced S h (k :: owed)) (result : Bool) :
    Gives (do return (← h.releaseRefs [k], result) : Exec (ObjectHeap × Bool)) fun result =>
      Balanced S result.1 owed := by
  refine gives_bind (releaseRefs_spec [k] _ hb) ?_
  rintro h' ⟨hb', -⟩
  exact gives_pure hb'

/-- **Setting a value by a string** moves the key string into the table or releases it. -/
theorem dictSet_spec (hb : Balanced S h owed) (r : Ref) (key : BreadString) (value : HeapValue) :
    Gives (h.dictSet r key value) fun result => Balanced S result.1 owed := by
  have hb₀ : Balanced S (h.stringNew (cString key)).2 ((h.stringNew (cString key)).1 :: owed) :=
    create_spec hb
  unfold ObjectHeap.dictSet
  dsimp only
  refine gives_bind getDict_spec fun d hbody => ?_
  split
  · exact releaseKey_spec hb₀ false
  split
  · exact releaseKey_spec hb₀ false
  -- the types that the dictionary adopts change no entry
  have hloses : Loses (d.adoptTypes (.string (some (h.stringNew (cString key)).1)) value)
      d.refs [] := loses_nothing d
  generalize d.adoptTypes (.string (some (h.stringNew (cString key)).1)) value = d' at hloses ⊢
  refine gives_bind (scan_spec 0 d'.entries) ?_
  rintro found ⟨hfound, -⟩
  cases found with
  | some slot =>
      obtain ⟨i, e, hi, he, htest⟩ := hfound slot rfl
      obtain rfl : slot = i := by omega
      have hlive : e.isLive = true := by
        rw [ObjectHeap.holdsString] at htest
        split at htest
        · assumption
        · cases htest
      refine gives_bind entryAt_spec fun e' he' => ?_
      rw [he] at he'
      cases he'
      exact gives_bind (setEntryValue_spec hb₀ hbody hloses he hlive value)
        fun h' hb' => releaseKey_spec hb' true
  | none =>
      dsimp only
      split
      · cases hgrown : d'.header.grownCapacity with
        | error e => exact gives_error
        | ok newCapacity =>
            refine gives_bind (P := fun c => c = newCapacity) (gives_ok rfl) ?_
            rintro _ rfl
            split
            · refine gives_bind (writeDict_spec ((h.stringNew (cString key)).1 :: owed) hb₀
                hbody fun x => ?_) fun h' hb' => releaseKey_spec hb'.1 false
              have hx := hloses x
              simp only [List.count_nil] at hx
              omega
            · rename_i hpositive
              refine gives_bind (compact_emptied_spec hgrown hpositive) fun d'' hcompact => ?_
              refine insertFirstFree_spec hb₀ hbody (fun x => ?_) value
              rw [hcompact x]
              have hx := hloses x
              simpa using hx
      · exact insertFirstFree_spec hb₀ hbody hloses value

theorem dictRemove_spec (hb : Balanced S h owed) (d : Option Ref) (key : HeapValue) :
    Gives (h.dictRemove d key) fun result =>
      Balanced S result.2 (valueRefs result.1.toOption.toList ++ owed) := by
  cases d with
  | none => exact gives_error
  | some r =>
      refine gives_bind getDict_spec fun d hbody => ?_
      split
      · exact gives_pure hb
      refine gives_bind findSlot_spec fun found _ => ?_
      cases found with
      | none => exact gives_pure hb
      | some slot =>
          refine gives_bind entryAt_spec fun e he => ?_
          split
          · rename_i hlive
            have hrefs : e.refs = e.key.refs ++ e.value.refs := if_pos hlive
            have hnil := refs_setEntry he ⟨.nil, .nil, true, false⟩
            have hdead := refs_setEntry he ⟨.nil, .nil, true, true⟩
            rw [hrefs, refs_live] at hnil
            rw [hrefs, refs_of_not_isLive rfl] at hdead
            simp only [refs_nil, List.count_append, List.count_nil] at hnil hdead
            refine gives_bind (valueClone_spec hb) ?_
            rintro h₁ ⟨hb₁, hsame⟩
            refine gives_bind (writeDict_spec
              (e.key.refs ++ (e.value.refs ++ (e.value.refs ++ owed))) hb₁ (hsame ▸ hbody)
              fun x => ?_) ?_
            · have hx := hnil x
              simp only [List.count_append]
              omega
            rintro h₂ ⟨hb₂, hbody₂⟩
            refine gives_bind (valueRelease_spec _ hb₂) ?_
            rintro h₃ ⟨hb₃, hshrinks₃⟩
            refine gives_bind (valueRelease_spec _ hb₃) ?_
            rintro h₄ ⟨hb₄, hshrinks₄⟩
            refine gives_bind (write_spec (e.value.refs ++ owed) hb₄ fun b hb' => ?_) ?_
            · rw [body_of_released (hshrinks₃.trans hshrinks₄) hbody₂ hb']
              refine ⟨id, fun x => ?_⟩
              have hx := hnil x
              have hx' := hdead x
              simp only [children_dict]
              show _ + (d.setEntry slot ⟨.nil, .nil, true, true⟩).refs.count x = _
              omega
            · rintro h₅ ⟨hb₅, -⟩
              refine gives_pure ?_
              simpa [Except.toOption, valueRefs] using hb₅
          · exact gives_pure hb

theorem dictClear_spec (hb : Balanced S h owed) (d : Option Ref) :
    Gives (h.dictClear d) fun h' => Balanced S h' owed := by
  cases d with
  | none => exact gives_ok hb
  | some r =>
      refine gives_bind getDict_spec fun d hbody => ?_
      refine gives_bind (writeDict_spec (d.refs ++ owed) hb hbody fun x => ?_) ?_
      · rw [refs_cleared, List.count_append, List.count_nil]
        omega
      rintro h₁ ⟨hb₁, hbody₁⟩
      refine gives_bind (releaseRefs_spec _ _ hb₁) ?_
      rintro h₂ ⟨hb₂, hshrinks⟩
      refine (write_spec _ hb₂ fun b hb' => ?_).mono fun _ h => h.1
      rw [body_of_released hshrinks hbody₁ hb']
      exact ⟨id, fun _ => rfl⟩

theorem collectLoop_spec {a : Ref} (vs : List HeapValue) (hb : Balanced S h (a :: owed)) :
    Gives (h.collectLoop a vs) fun result => Balanced S result.2 (result.1.toList ++ owed) := by
  induction vs generalizing h with
  | nil => exact gives_ok hb
  | cons v vs ih =>
      refine gives_bind (arrayAppend_spec hb (some a) v) ?_
      rintro ⟨h', appended⟩ hb'
      cases appended with
      | true => exact ih hb'
      | false =>
          refine gives_bind (releaseRefs_spec [a] _ hb') ?_
          rintro h'' ⟨hb'', -⟩
          exact gives_pure hb''

theorem dictKeys_spec (hb : Balanced S h owed) (d : Option Ref) :
    Gives (h.dictKeys d) fun result => Balanced S result.2 (result.1.toList ++ owed) := by
  cases d with
  | none => exact gives_ok hb
  | some r =>
      refine gives_bind getDict_spec fun d hbody => ?_
      exact collectLoop_spec _ (newArray_spec hb 0 d.keyType)

theorem dictValues_spec (hb : Balanced S h owed) (d : Option Ref) :
    Gives (h.dictValues d) fun result => Balanced S result.2 (result.1.toList ++ owed) := by
  cases d with
  | none => exact gives_ok hb
  | some r =>
      refine gives_bind getDict_spec fun d hbody => ?_
      exact collectLoop_spec _ (newArray_spec hb 0 d.valueType)

/-- What an append makes of the array, when it does not refuse the value. -/
theorem arrayAppend_body {a : ArrayBody} (hb : Balanced S h owed)
    (hbody : h.body r = some (.array a)) (v : HeapValue) :
    Gives (h.arrayAppend (some r) v) fun result => result.2 = true →
      a.mismatch v = false ∧ ∃ a', result.1.body r = some (.array a') ∧ a'.items ≠ [] ∧
        a'.elementType = (a.adoptType v).elementType := by
  refine gives_bind getArray_spec fun a₀ hbody₀ => ?_
  rw [hbody] at hbody₀
  cases hbody₀
  split
  · exact gives_pure fun h => nomatch h
  rename_i hmatch
  have hgrow : Gives (a.adoptType v).growIfFull fun a' =>
      a'.elementType = (a.adoptType v).elementType := by
    unfold ArrayBody.growIfFull
    split
    · exact gives_bind_any fun newCap => gives_pure rfl
    · exact gives_ok rfl
  refine gives_bind hgrow fun a' htype => ?_
  refine gives_bind (valueClone_spec hb) ?_
  rintro h₁ ⟨hb₁, hsame⟩
  have hwrite : Gives (h₁.write r (.array { a' with items := a'.items ++ [v] })) fun h' =>
      h'.body r = some (.array { a' with items := a'.items ++ [v] }) := by
    unfold ObjectHeap.write
    split
    · exact gives_ok (by simp [Heap.setBody])
    · exact gives_error
  refine gives_bind hwrite fun h₂ hbody₂ => ?_
  exact gives_pure fun _ => ⟨by simpa using hmatch, _, hbody₂, by simp, htype⟩

/-- The loop that collects values of types that an array with elements takes. -/
theorem collectLoop_refused {a : Ref} {body : ArrayBody} (vs : List HeapValue)
    (hb : Balanced S h (a :: owed)) (hbody : h.body a = some (.array body))
    (hitems : body.items ≠ []) :
    Gives (h.collectLoop a vs) fun result => result.1 ≠ none →
      vs.any (DictBody.mismatch body.elementType) = false := by
  induction vs generalizing h body with
  | nil => exact gives_ok fun _ => rfl
  | cons v vs ih =>
      refine gives_bind ((arrayAppend_spec hb (some a) v).and (arrayAppend_body hb hbody v)) ?_
      rintro ⟨h', appended⟩ ⟨hb', happended⟩
      cases appended with
      | true =>
          obtain ⟨hmatch, body', hbody', hitems', htype⟩ := happended rfl
          have hkept : body'.elementType = body.elementType := by
            rw [htype, ArrayBody.adoptType]
            refine if_neg fun h => hitems ?_
            exact List.eq_nil_of_length_eq_zero (Int.ofNat.inj h.2)
          refine (ih hb' hbody' hitems').mono fun result hresult hsome => ?_
          rw [List.any_cons, ← hkept, hresult hsome, Bool.or_false, hkept]
          exact hmatch
      | false => exact gives_bind_any fun h'' => gives_pure fun h => absurd rfl h

/-- **The keys as a value** lose the reference of the array that they are collected in. -/
theorem valueDictKeysAsValue_spec (hb : Balanced S h owed) (v : HeapValue) :
    Gives (h.valueDictKeysAsValue v) fun result =>
      ConservesIf S (h.asValueKeeps v = true) (valueRefs result.1.toList ++ owed) result.2 := by
  cases v with
  | dict d =>
      cases d with
      | none => exact gives_ok (.of_balanced hb)
      | some r =>
          have hrefused : Gives (h.dictKeys (some r)) fun result => result.1 ≠ none →
              h.asValueKeeps (.dict (some r)) = false := by
            refine gives_bind getDict_spec fun d hbody => ?_
            simp only [ObjectHeap.asValueKeeps, hbody]
            generalize (d.entries.filter HeapEntry.isLive).map HeapEntry.key = keys
            have hnew := newArray_spec hb 0 d.keyType
            have hbodyNew := body_create h (.array (.new 0 d.keyType))
            cases keys with
            | nil => exact gives_ok fun _ => rfl
            | cons key keys =>
                refine gives_bind ((arrayAppend_spec hnew (some _) key).and
                  (arrayAppend_body hnew hbodyNew key)) ?_
                rintro ⟨h', appended⟩ ⟨hb', happended⟩
                cases appended with
                | true =>
                    obtain ⟨hmatch, body, hbody', hitems, htype⟩ := happended rfl
                    refine (collectLoop_refused keys hb' hbody' hitems).mono
                      fun result hresult hsome => ?_
                    have hadopted : body.elementType =
                        if d.keyType = .typeNil then key.type else d.keyType := by
                      rw [htype]
                      simp [ArrayBody.adoptType, ArrayBody.new, ArrayBody.count]
                    rw [ObjectHeap.appendRefused, ← hadopted, hresult hsome, Bool.or_false]
                    exact hmatch
                | false => exact gives_bind_any fun h'' => gives_pure fun h => absurd rfl h
          refine gives_bind ((dictKeys_spec hb (some r)).and hrefused) ?_
          rintro ⟨keys, h'⟩ ⟨hb', hkeeps⟩
          cases keys with
          | none => exact gives_pure (.of_balanced hb')
          | some a =>
              refine gives_bind (objectRetain_spec (r := a) hb') ?_
              rintro h'' ⟨hb'', -⟩
              refine gives_pure ⟨[a], hb'', fun hclear => ?_⟩
              rw [hkeeps (by simp)] at hclear
              cases hclear
  | _ => exact gives_ok (.of_balanced hb)

theorem dictGetWithDefault_spec (hb : Balanced S h owed) (d : Option Ref) (key default : HeapValue) :
    Gives (h.dictGetWithDefault d key default) fun result =>
      Balanced S result.2 (result.1.refs ++ owed) := by
  have hclone : ∀ v : HeapValue,
      Gives (do return (v, ← h.valueClone v) : Exec (HeapValue × ObjectHeap)) fun result =>
        Balanced S result.2 (result.1.refs ++ owed) :=
    fun v => gives_bind (valueClone_spec hb) fun h' hb' => gives_pure hb'.1
  cases d with
  | none => exact gives_error
  | some r =>
      refine gives_bind getDict_spec fun d hbody => ?_
      split
      · exact hclone default
      refine gives_bind findSlot_spec fun found _ => ?_
      cases found with
      | none => exact hclone default
      | some slot => exact gives_bind_any fun e => hclone _

end Dictionaries

end BreadLang
