import BreadLang.Runtime.Indexing

/-!
# String keys

What `bread_dict_set` does to the value that `bread_dict_get` finds.  Both scan the entries
from the first one on, and a key has the value of the first live entry with it.  A new entry
may stand in front of older ones, and a new table changes the slots but not the order.

## Main results

* `dictSet_stored`: a set that has a place returns; the key then has the value, and the
  other keys have those that they had.
-/

namespace BreadLang

open RefCount

/-! ### The first entry of a key -/

/-- The value that a string key has: that of the first live entry with the key. -/
def ObjectHeap.firstValue (h : ObjectHeap) (key : BreadString) :
    List HeapEntry → Exec (Option HeapValue)
  | [] => .ok none
  | e :: rest => do
      if ← h.holdsString key e then return some e.value else h.firstValue key rest

section Entries

variable {h h' : ObjectHeap} {key : BreadString} {e e' : HeapEntry}
  {before after entries : List HeapEntry}

/-- A scan finds the first entry that passes. -/
theorem scan_split {test : HeapEntry → Exec Bool} {slot : ℕ} (i : ℕ)
    (hscan : ObjectHeap.scan test i entries = .ok (some slot)) :
    ∃ before e after, entries = before ++ e :: after ∧ slot = i + before.length ∧
      (∀ x ∈ before, test x = .ok false) ∧ test e = .ok true := by
  induction entries generalizing i with
  | nil => cases hscan
  | cons entry rest ih =>
      obtain ⟨b, hb, hscan⟩ := bind_eq_ok.mp hscan
      cases b with
      | true =>
          cases hscan
          exact ⟨[], entry, rest, rfl, rfl, fun x hx => absurd hx List.not_mem_nil, hb⟩
      | false =>
          obtain ⟨before, e, after, rfl, rfl, hbefore, he⟩ := ih (i + 1) hscan
          refine ⟨entry :: before, e, after, rfl, ?_, List.forall_mem_cons.mpr ⟨hb, hbefore⟩, he⟩
          rw [List.length_cons]
          omega

/-- `bread_dict_get` finds the first value of the key. -/
theorem firstValue_eq_scan (h : ObjectHeap) (key : BreadString) (entries : List HeapEntry)
    (i : ℕ) :
    h.firstValue key entries =
      (fun found => found.bind fun slot => entries[slot - i]?.map HeapEntry.value) <$>
        ObjectHeap.scan (h.holdsString key) i entries := by
  induction entries generalizing i with
  | nil => rfl
  | cons e rest ih =>
      rw [ObjectHeap.firstValue, ObjectHeap.scan]
      cases htest : h.holdsString key e with
      | error s => rfl
      | ok b =>
          cases b with
          | true =>
              show Except.ok (some e.value) =
                Except.ok (((e :: rest)[i - i]?).map HeapEntry.value)
              rw [Nat.sub_self]
              rfl
          | false =>
              show h.firstValue key rest =
                (fun found => found.bind fun slot => (e :: rest)[slot - i]?.map HeapEntry.value) <$>
                  ObjectHeap.scan (h.holdsString key) (i + 1) rest
              rw [ih (i + 1)]
              cases hscan : ObjectHeap.scan (h.holdsString key) (i + 1) rest with
              | error s => rfl
              | ok found =>
                  cases found with
                  | none => rfl
                  | some slot =>
                      obtain ⟨before, _, _, -, rfl, -⟩ := scan_split (i + 1) hscan
                      have hsub : i + 1 + before.length - i =
                          i + 1 + before.length - (i + 1) + 1 := by omega
                      show Except.ok (rest[i + 1 + before.length - (i + 1)]?.map _) =
                        Except.ok ((e :: rest)[i + 1 + before.length - i]?.map _)
                      rw [hsub, List.getElem?_cons_succ]

theorem dictGet_eq {r : Ref} {d : DictBody} (hbody : h.body r = some (.dict d))
    (key : BreadString) : h.dictGet (some r) key = h.firstValue key d.entries := by
  have hget : h.getDict r = .ok d := by rw [ObjectHeap.getDict, hbody]
  rw [ObjectHeap.dictGet, hget, firstValue_eq_scan h key d.entries 0]
  show (ObjectHeap.scan (h.holdsString key) 0 d.entries >>= _) = _
  cases hscan : ObjectHeap.scan (h.holdsString key) 0 d.entries with
  | error s => rfl
  | ok found =>
      cases found with
      | none => rfl
      | some slot =>
          obtain ⟨before, e, after, hentries, rfl, -⟩ := scan_split 0 hscan
          have he : d.entries[0 + before.length]? = some e := by
            rw [hentries, Nat.zero_add, List.getElem?_append_right (Nat.le_refl _),
              Nat.sub_self]
            rfl
          show (d.entryAt (0 + before.length) >>= _) =
            Except.ok (d.entries[0 + before.length]?.map HeapEntry.value)
          rw [DictBody.entryAt, he]
          rfl

theorem holdsString_of_not_isLive (he : e.isLive = false) :
    h.holdsString key e = .ok false := by
  rw [ObjectHeap.holdsString, he]

/-- Entries that are not live are not read. -/
theorem firstValue_filter (h : ObjectHeap) (key : BreadString) (entries : List HeapEntry) :
    h.firstValue key (entries.filter HeapEntry.isLive) = h.firstValue key entries := by
  induction entries with
  | nil => rfl
  | cons e rest ih =>
      by_cases hlive : e.isLive = true
      · rw [List.filter_cons_of_pos hlive, ObjectHeap.firstValue, ObjectHeap.firstValue, ih]
      · rw [List.filter_cons_of_neg hlive, ObjectHeap.firstValue,
          holdsString_of_not_isLive ((Bool.not_eq_true _).mp hlive), ih]
        rfl

/-- Entries without the key in front are skipped. -/
theorem firstValue_append (hbefore : ∀ x ∈ before, h.holdsString key x = .ok false) :
    h.firstValue key (before ++ after) = h.firstValue key after := by
  induction before with
  | nil => rfl
  | cons x rest ih =>
      obtain ⟨hx, hrest⟩ := List.forall_mem_cons.mp hbefore
      rw [List.cons_append, ObjectHeap.firstValue, hx]
      exact ih hrest

/-- An entry without the key may be exchanged for another one. -/
theorem firstValue_exchange (he : h.holdsString key e = .ok false)
    (he' : h.holdsString key e' = .ok false) :
    h.firstValue key (before ++ e' :: after) = h.firstValue key (before ++ e :: after) := by
  induction before with
  | nil =>
      rw [List.nil_append, List.nil_append, ObjectHeap.firstValue, ObjectHeap.firstValue, he, he']
      rfl
  | cons x rest ih =>
      rw [List.cons_append, List.cons_append, ObjectHeap.firstValue, ObjectHeap.firstValue, ih]

theorem firstValue_congr
    (hsame : ∀ e ∈ entries, h'.holdsString key e = h.holdsString key e) :
    h'.firstValue key entries = h.firstValue key entries := by
  induction entries with
  | nil => rfl
  | cons e rest ih =>
      obtain ⟨he, hrest⟩ := List.forall_mem_cons.mp hsame
      rw [ObjectHeap.firstValue, ObjectHeap.firstValue, he, ih hrest]

/-- What is found is the value of a live entry. -/
theorem firstValue_mem {w : HeapValue} (hfound : h.firstValue key entries = .ok (some w)) :
    ∃ e ∈ entries, e.isLive = true ∧ e.value = w := by
  induction entries with
  | nil => cases hfound
  | cons e rest ih =>
      obtain ⟨b, hb, hfound⟩ := bind_eq_ok.mp hfound
      cases b with
      | true =>
          cases hfound
          refine ⟨e, List.mem_cons_self, ?_, rfl⟩
          by_contra hdead
          rw [holdsString_of_not_isLive ((Bool.not_eq_true _).mp hdead)] at hb
          cases hb
      | false =>
          obtain ⟨e', hmem, hlive, hvalue⟩ := ih hfound
          exact ⟨e', List.mem_cons_of_mem _ hmem, hlive, hvalue⟩

/-- An entry that has one key does not have another. -/
theorem holdsString_of_ne {key' : BreadString} (hne : cString key' ≠ cString key)
    (he : h.holdsString key e = .ok true) : h.holdsString key' e = .ok false := by
  rw [ObjectHeap.holdsString] at he ⊢
  split at he
  · obtain ⟨data, hdata, htest⟩ := bind_eq_ok.mp he
    have hkey : cString data = cString key := by simpa using Except.ok.inj htest
    rw [hdata]
    show Except.ok (cString data == cString key') = _
    rw [hkey, beq_eq_false_iff_ne.mpr hne.symm]
  · cases he

end Entries

/-! ### Moving the entries to a new table -/

section Compaction

variable {d d' : DictBody} {before after entries : List HeapEntry}

/-- A scan goes on behind entries that do not pass. -/
theorem scan_append {test : HeapEntry → Exec Bool} (i : ℕ)
    (hbefore : ∀ x ∈ before, test x = .ok false) :
    ObjectHeap.scan test i (before ++ after) = ObjectHeap.scan test (i + before.length) after := by
  induction before generalizing i with
  | nil => rfl
  | cons x rest ih =>
      obtain ⟨hx, hrest⟩ := List.forall_mem_cons.mp hbefore
      rw [List.cons_append, ObjectHeap.scan, hx, List.length_cons, Nat.add_comm rest.length,
        ← Nat.add_assoc]
      exact ih (i + 1) hrest

theorem set_append_cons {α : Type} (before after : List α) (a b : α) :
    (before ++ a :: after).set before.length b = before ++ b :: after := by
  rw [List.set_append_right _ _ (Nat.le_refl _), Nat.sub_self]
  rfl

/-- **The entries in a new table** are those that are live, one behind the other. -/
theorem compactLoop_entries {packed : List HeapEntry} {free : ℕ}
    (hrun : ObjectHeap.compactLoop entries d = .ok d')
    (hd : d.entries = packed ++ List.replicate free .zero)
    (hpacked : ∀ e ∈ packed, e.isOccupied = true)
    (hroom : entries.countP HeapEntry.isLive ≤ free) :
    (∃ free', d'.entries =
        packed ++ entries.filter HeapEntry.isLive ++ List.replicate free' .zero) ∧
      d'.count = d.count + entries.countP HeapEntry.isLive := by
  induction entries generalizing d packed free with
  | nil =>
      cases hrun
      refine ⟨⟨free, ?_⟩, (Int.add_zero _).symm⟩
      rw [hd, List.filter_nil, List.append_nil]
  | cons e rest ih =>
      rw [ObjectHeap.compactLoop] at hrun
      by_cases hlive : e.isLive = true
      · rw [if_pos hlive] at hrun
        rw [List.countP_cons_of_pos hlive] at hroom
        obtain ⟨n, rfl⟩ : ∃ n, free = n + 1 := Nat.exists_eq_succ_of_ne_zero (by omega)
        have hscan : ObjectHeap.scan (fun e => .ok !e.isOccupied) 0 d.entries =
            .ok (some packed.length) := by
          rw [hd, scan_append 0 fun x hx => by rw [hpacked x hx]; rfl, Nat.zero_add]
          rfl
        rw [hscan] at hrun
        have hentries : (d.addEntry packed.length e).entries =
            (packed ++ [e]) ++ List.replicate n .zero := by
          show d.entries.set packed.length e = _
          rw [hd, List.replicate_succ, set_append_cons, List.append_assoc]
          rfl
        have hoccupied : ∀ x ∈ packed ++ [e], x.isOccupied = true := by
          intro x hx
          rcases List.mem_append.mp hx with hx | hx
          · exact hpacked x hx
          · obtain rfl := List.mem_singleton.mp hx
            exact ((Bool.and_eq_true _ _).mp hlive).1
        obtain ⟨⟨free', hfree⟩, hcount⟩ := ih hrun hentries hoccupied (by omega)
        refine ⟨⟨free', ?_⟩, ?_⟩
        · rw [hfree, List.filter_cons_of_pos hlive]
          simp only [List.append_assoc, List.singleton_append]
        · have hadd : (d.addEntry packed.length e).count = d.count + 1 := rfl
          rw [hcount, hadd, List.countP_cons_of_pos hlive]
          push_cast
          omega
      · rw [if_neg hlive] at hrun
        rw [List.countP_cons_of_neg hlive] at hroom ⊢
        rw [List.filter_cons_of_neg hlive]
        exact ih hrun hd hpacked hroom

theorem compact_emptied_entries {newCapacity : ℤ}
    (hgrown : d.header.grownCapacity = .ok newCapacity) (hpositive : ¬ newCapacity < 0)
    (hrun : ObjectHeap.compactLoop d.entries (d.emptied newCapacity) = .ok d') :
    d'.entries.filter HeapEntry.isLive = d.entries.filter HeapEntry.isLive ∧
      d'.count = d.entries.countP HeapEntry.isLive := by
  have hlive : d.entries.countP HeapEntry.isLive ≤ d.entries.length := List.countP_le_length
  have hroom := length_le_grownCapacity hgrown hpositive
  have hzero : (d.emptied newCapacity).entries =
      [] ++ List.replicate newCapacity.toNat .zero := rfl
  obtain ⟨⟨free, hentries⟩, hcount⟩ := compactLoop_entries hrun hzero
    (fun e he => absurd he List.not_mem_nil) (hlive.trans hroom)
  refine ⟨?_, hcount.trans (Int.zero_add _)⟩
  have hzero : (List.replicate free HeapEntry.zero).filter HeapEntry.isLive = [] :=
    List.filter_eq_nil_iff.mpr fun e he => by
      obtain rfl := List.eq_of_mem_replicate he
      exact Bool.false_ne_true
  rw [hentries, List.nil_append, List.filter_append, hzero, List.append_nil, List.filter_filter]
  simp only [Bool.and_self]

end Compaction

/-! ### Setting a key -/

/-- The number of entries that a dictionary has after a key has been set.  A new table
counts the entries that it takes over. -/
def DictBody.countAfter (h : ObjectHeap) (d : DictBody) (key : BreadString) : ℤ :=
  match ObjectHeap.scan (h.holdsString key) 0 d.entries with
  | .ok none =>
      (if d.header.loadReached then (d.entries.countP HeapEntry.isLive : ℤ) else d.count) + 1
  | _ => d.count

/-- **A key has been set**: it has the value, and the other keys have those that they
had. -/
structure DictStored (h h' : ObjectHeap) (owed : List Ref) (r : Ref) (d d' : DictBody)
    (key : BreadString) (v : HeapValue) : Prop where
  balanced : Balanced ∅ h' owed
  retainable : Retainable h'
  body : h'.body r = some (.dict d')
  count : d'.count = d.countAfter h key
  value : h'.firstValue key d'.entries = .ok (some v)
  others : ∀ key', cString key' ≠ cString key →
    h'.firstValue key' d'.entries = h.firstValue key' d.entries

section Keys

variable {h h' : ObjectHeap} {owed owed' : List Ref} {r k x : Ref} {d d' : DictBody}
  {key : BreadString} {e f : HeapEntry} {v : HeapValue} {before after : List HeapEntry}

theorem cString_cString (s : BreadString) : cString (cString s) = cString s := by
  rw [cString, cString, List.takeWhile_takeWhile]
  simp only [and_self, Bool.decide_eq_true]

/-- The keys of the entries of a dictionary are alive. -/
theorem key_alive (hb : Balanced ∅ h owed) (hbody : h.body r = some (.dict d))
    (he : e ∈ d.entries) (hlive : e.isLive = true) (hx : x ∈ e.key.refs) : h.body x ≠ none := by
  have hholds : h.Holds ObjectBody.children r x := by
    refine holds_iff.mpr ⟨_, hbody, List.mem_flatMap.mpr ⟨e, he, ?_⟩⟩
    rw [HeapEntry.refs, if_pos hlive]
    exact List.mem_append_left _ hx
  have hpos := hb.ledger.incoming_pos hholds
  have hcounted := hb.ledger.counted x
  rw [Ne, hb.ledger.body_iff]
  omega

theorem holdsString_of_stringAt
    (hsame : ∀ x ∈ e.key.refs, h'.stringAt x = h.stringAt x) (key : BreadString) :
    h'.holdsString key e = h.holdsString key e := by
  rw [ObjectHeap.holdsString, ObjectHeap.holdsString]
  split
  · rename_i hkey
    rw [hsame _ (by rw [hkey]; exact List.mem_singleton_self _)]
  · rfl

/-- The bodies of two heaps, up to a dictionary that has changed, a new string and what has
been destroyed. -/
def KeptBodies (h h' : ObjectHeap) (r k : Ref) : Prop :=
  ∀ a, a ≠ r → a ≠ k → h'.body a = h.body a ∨ h'.body a = none

/-- The test of an entry whose key the dictionary still has. -/
theorem holdsString_kept (hb : Balanced ∅ h owed) (hb' : Balanced ∅ h' owed')
    (hkept : KeptBodies h h' r h.size) (hbody : h.body r = some (.dict d))
    (hbody' : h'.body r = some (.dict d')) (he : e ∈ d.entries)
    (hstays : e.isLive = true → ∃ f ∈ d'.entries, f.isLive = true ∧ f.key = e.key)
    (key : BreadString) : h'.holdsString key e = h.holdsString key e := by
  by_cases hlive : e.isLive = true
  · obtain ⟨f, hf, hflive, hkey⟩ := hstays hlive
    refine holdsString_of_stringAt (fun x hx => ?_) key
    have halive := key_alive hb hbody he hlive hx
    have halive' := key_alive hb' hbody' hf hflive (hkey ▸ hx)
    rw [ObjectHeap.stringAt, ObjectHeap.stringAt]
    by_cases hxr : x = r
    · rw [hxr, hbody, hbody']
    · rcases hkept x hxr (hb.ne_size halive) with hsame | hnone
      · rw [hsame]
      · exact absurd hnone halive'
  · have hdead := (Bool.not_eq_true _).mp hlive
    rw [holdsString_of_not_isLive hdead, holdsString_of_not_isLive hdead]

/-- The entry of the new key. -/
theorem holdsString_new (hnew : h'.stringAt k = .ok (cString key)) (key' : BreadString) :
    h'.holdsString key' ⟨.string (some k), v, true, false⟩ =
      .ok (cString key == cString key') := by
  show (h'.stringAt k >>= _) = _
  rw [hnew]
  show Except.ok (cString (cString key) == cString key') = _
  rw [cString_cString]

/-- **An entry with another value.** -/
theorem DictStored.of_found (hb : Balanced ∅ h owed) (hb' : Balanced ∅ h' owed)
    (hroom : Retainable h') (hkept : KeptBodies h h' r h.size)
    (hbody : h.body r = some (.dict d)) (hbody' : h'.body r = some (.dict d'))
    (hentries : d.entries = before ++ e :: after)
    (hentries' : d'.entries = before ++ { e with value := v } :: after)
    (hcount : d'.count = d.countAfter h key)
    (hbefore : ∀ x ∈ before, h.holdsString key x = .ok false)
    (he : h.holdsString key e = .ok true) : DictStored h h' owed r d d' key v := by
  have hsame (x : HeapEntry) (hx : x ∈ d.entries) (key' : BreadString) :
      h'.holdsString key' x = h.holdsString key' x := by
    refine holdsString_kept hb hb' hkept hbody hbody' hx (fun hlive => ?_) key'
    rw [hentries, List.mem_append, List.mem_cons] at hx
    rw [hentries']
    rcases hx with hx | rfl | hx
    · exact ⟨x, List.mem_append_left _ hx, hlive, rfl⟩
    · exact ⟨{ x with value := v }, List.mem_append_right _ List.mem_cons_self, hlive, rfl⟩
    · exact ⟨x, List.mem_append_right _ (List.mem_cons_of_mem _ hx), hlive, rfl⟩
  have hmem : e ∈ d.entries := by
    rw [hentries]
    exact List.mem_append_right _ List.mem_cons_self
  have hvalue (key' : BreadString) :
      h'.holdsString key' { e with value := v } = h.holdsString key' e := hsame e hmem key'
  refine ⟨hb', hroom, hbody', hcount, ?_, fun key' hne => ?_⟩
  · have hskip : ∀ x ∈ before, h'.holdsString key x = .ok false := fun x hx => by
      rw [hsame x (hentries ▸ List.mem_append_left _ hx)]
      exact hbefore x hx
    rw [hentries', firstValue_append hskip, ObjectHeap.firstValue, hvalue, he]
    rfl
  · have hother := holdsString_of_ne hne he
    rw [hentries', firstValue_exchange ((hsame e hmem key').trans hother)
      ((hvalue key').trans hother), ← hentries]
    exact firstValue_congr fun x hx => hsame x hx key'

/-- **A new entry.** -/
theorem DictStored.of_inserted (hb : Balanced ∅ h owed) (hb' : Balanced ∅ h' owed)
    (hroom : Retainable h') (hkept : KeptBodies h h' r h.size)
    (hbody : h.body r = some (.dict d)) (hbody' : h'.body r = some (.dict d'))
    (hfree : f.isLive = false)
    (hentries : (before ++ f :: after).filter HeapEntry.isLive =
      d.entries.filter HeapEntry.isLive)
    (hentries' : d'.entries =
      before ++ ⟨.string (some h.size), v, true, false⟩ :: after)
    (hcount : d'.count = d.countAfter h key)
    (hnone : ∀ x ∈ d.entries, h.holdsString key x = .ok false)
    (hnew : h'.stringAt h.size = .ok (cString key)) : DictStored h h' owed r d d' key v := by
  have hsame (x : HeapEntry) (hx : x ∈ before ++ f :: after) (hlive : x.isLive = true)
      (key' : BreadString) : x ∈ d.entries ∧ h'.holdsString key' x = h.holdsString key' x := by
    have hmem : x ∈ d.entries :=
      (List.mem_filter.mp (hentries ▸ List.mem_filter.mpr ⟨hx, hlive⟩)).1
    refine ⟨hmem, holdsString_kept hb hb' hkept hbody hbody' hmem (fun _ => ?_) key'⟩
    rw [hentries']
    rw [List.mem_append, List.mem_cons] at hx
    rcases hx with hx | rfl | hx
    · exact ⟨x, List.mem_append_left _ hx, hlive, rfl⟩
    · rw [hfree] at hlive
      cases hlive
    · exact ⟨x, List.mem_append_right _ (List.mem_cons_of_mem _ hx), hlive, rfl⟩
  refine ⟨hb', hroom, hbody', hcount, ?_, fun key' hne => ?_⟩
  · have hskip : ∀ x ∈ before, h'.holdsString key x = .ok false := fun x hx => by
      by_cases hlive : x.isLive = true
      · obtain ⟨hmem, hx'⟩ := hsame x (List.mem_append_left _ hx) hlive key
        rw [hx']
        exact hnone x hmem
      · exact holdsString_of_not_isLive ((Bool.not_eq_true _).mp hlive)
    rw [hentries', firstValue_append hskip, ObjectHeap.firstValue, holdsString_new hnew,
      beq_self_eq_true]
    rfl
  · have hother : h'.holdsString key' ⟨.string (some h.size), v, true, false⟩ = .ok false := by
      rw [holdsString_new hnew, beq_eq_false_iff_ne.mpr hne.symm]
    rw [hentries', firstValue_exchange (holdsString_of_not_isLive hfree) hother,
      ← firstValue_filter, ← firstValue_filter h key' d.entries, ← hentries]
    refine firstValue_congr fun x hx => ?_
    obtain ⟨hmem, hlive⟩ := List.mem_filter.mp hx
    exact (hsame x hmem hlive key').2

end Keys

section DictSet

variable {h h₁ h' : ObjectHeap} {owed : List Ref} {r : Ref} {d d₀ d₁ : DictBody}
  {key : BreadString} {v : HeapValue} {place : Place} {slot : ℕ}

theorem scan_congr {test test' : HeapEntry → Exec Bool} (i : ℕ) {entries : List HeapEntry}
    (hsame : ∀ e ∈ entries, test' e = test e) :
    ObjectHeap.scan test' i entries = ObjectHeap.scan test i entries := by
  induction entries generalizing i with
  | nil => rfl
  | cons e rest ih =>
      obtain ⟨he, hrest⟩ := List.forall_mem_cons.mp hsame
      rw [ObjectHeap.scan, ObjectHeap.scan, he]
      simp only [ih _ hrest]

/-- The string that `bread_dict_set` makes of its key is none of the keys. -/
theorem scan_stringNew (hb : Balanced ∅ h owed) (hbody : h.body r = some (.dict d))
    (data key : BreadString) :
    ObjectHeap.scan ((h.stringNew data).2.holdsString key) 0 d.entries =
      ObjectHeap.scan (h.holdsString key) 0 d.entries := by
  have hr : h.body r ≠ none := by
    rw [hbody]
    exact Option.some_ne_none _
  have hbody₁ : (h.stringNew data).2.body r = some (.dict d) :=
    (body_stringNew_of_ne (hb.ne_size hr)).trans hbody
  refine scan_congr 0 fun e he => ?_
  exact holdsString_kept hb (balanced_stringNew hb data)
    (fun a _ ha => .inl (body_stringNew_of_ne ha)) hbody hbody₁ he
    (fun hlive => ⟨e, he, hlive, rfl⟩) key

/-- The counts after an insertion. -/
theorem Inserted.count_le {k : Ref} {e : HeapEntry}
    (hi : Inserted h h' r d slot (.string (some k)) v) (hb : Balanced ∅ h (k :: owed))
    (hb' : Balanced ∅ h' owed) (hbody : h.body r = some (.dict d₀))
    (hloses : Loses d d₀.refs []) (he : d.entries[slot]? = some e)
    (hfree : e.isLive = false) (x : Ref) : h'.count x ≤ h.count x + 1 := by
  have hkept : h'.body r ≠ none := by
    rw [hi.body]
    exact Option.some_ne_none _
  have hexchange := incoming_exchange ObjectBody.children hi.size
    (hb.ledger.lt_size hbody) hkept (fun a ha => .inl (hi.others a ha)) x
  rw [fields_of_body hbody, fields_of_body hi.body, children_dict, children_dict] at hexchange
  have hadd := refs_addEntry he ⟨.string (some k), v, true, false⟩ x
  rw [refs_live, refs_of_not_isLive hfree, List.count_append, List.count_nil] at hadd
  have hbefore := hb.ledger.counted x
  have hafter := hb'.ledger.counted x
  have hlost := hloses x
  have hone := count_refs_le v x
  have hkey : (HeapValue.string (some k)).refs = [k] := rfl
  rw [hkey] at hadd
  rw [← List.singleton_append, List.count_append] at hbefore
  rw [List.count_nil] at hlost
  omega

/-- The replacement of the value of an entry that has been found. -/
theorem dictSet_found {before after : List HeapEntry} {e : HeapEntry}
    (hb : Balanced ∅ h owed) (hroom : Countable h) (hbody : h.body r = some (.dict d₀))
    (hr : r ∈ owed) (hv : ∀ x ∈ v.refs, x ∈ owed) (hd : d.entries = d₀.entries)
    (hcount : d.count = d₀.count)
    (hentries : d₀.entries = before ++ e :: after)
    (hbefore : ∀ x ∈ before, h.holdsString key x = .ok false)
    (he : h.holdsString key e = .ok true)
    (hset : h.dictSet r key v = (do
      let h' ← (h.stringNew (cString key)).2.setEntryValue r d before.length e v
      return (← h'.releaseRefs [h.size], true))) :
    ∃ h' d', h.dictSet r key v = .ok (h', true) ∧ DictStored h h' owed r d₀ d' key v := by
  have hself : h.body r ≠ none := by
    rw [hbody]
    exact Option.some_ne_none _
  have hlive : e.isLive = true := by
    by_contra hdead
    rw [holdsString_of_not_isLive ((Bool.not_eq_true _).mp hdead)] at he
    cases he
  have hat : d.entries[before.length]? = some e := by
    rw [hd, hentries, List.getElem?_append_right (Nat.le_refl _), Nat.sub_self]
    rfl
  have hb₁ := balanced_stringNew hb (cString key)
  have hbody₁ : (h.stringNew (cString key)).2.body r = some (.dict d₀) :=
    (body_stringNew_of_ne (hb.ne_size hself)).trans hbody
  have hloses : Loses d d₀.refs [] := by
    intro x
    rw [DictBody.refs, hd]
    exact Nat.add_zero _
  have hreplaces := replaces_entry hb₁ hbody₁ hloses hat hlive v
  obtain ⟨h₂, hreplace, hresult⟩ := hreplaces.result (countable_stringNew hroom (cString key))
    (heldWithout_of_mem (List.mem_cons_of_mem _ hr) _)
    fun x hx => heldWithout_of_mem (List.mem_cons_of_mem _ (hv x hx)) _
  obtain ⟨h₃, hrelease, hb₃, hshrinks⟩ :
      ∃ h₃, h₂.releaseRefs [h.size] = .ok h₃ ∧ Released ∅ h₂ _ h₃ :=
    releaseRefs_returns hresult.balanced
  have hcount₃ (x : Ref) : h₃.count x ≤ h₂.count x :=
    @count_le_of_released _ _ _ [h.size] _ hresult.balanced ⟨hb₃, hshrinks⟩
  have hbody₃ : h₃.body r = some (.dict (d.setEntry before.length { e with value := v })) := by
    rcases hshrinks.body r with hsame | hnone
    · rw [hsame, hresult.body]
    · have halive := hb₃.ledger.count_ne_zero (List.count_pos_iff.mpr hr).ne'
      exact absurd ((hb₃.ledger.body_iff r).mp hnone) halive
  refine ⟨h₃, d.setEntry before.length { e with value := v }, ?_,
    .of_found hb hb₃ (fun x => ?_) (fun a har hak => ?_) hbody hbody₃ hentries ?_ ?_
      hbefore he⟩
  · rw [hset]
    refine bind_eq_ok.mpr ⟨h₂, hreplace, ?_⟩
    rw [hrelease]
    rfl
  · have hlimit := countable_stringNew hroom (cString key) x
    have hle := Replaces.Result.count_eq hreplaces hresult x
    have hone := count_refs_le v x
    have hx := hcount₃ x
    omega
  · rcases hshrinks.body a with hsame | hnone
    · rw [hsame]
      rcases hresult.others a har with hsame | hnone
      · rw [hsame]
        exact .inl (body_stringNew_of_ne hak)
      · exact .inr hnone
    · exact .inr hnone
  · show d.entries.set before.length _ = _
    rw [hd, hentries, set_append_cons]
  · have hscan : ObjectHeap.scan (h.holdsString key) 0 d₀.entries =
        .ok (some (0 + before.length)) := by
      rw [hentries, scan_append 0 hbefore, ObjectHeap.scan, he]
      rfl
    show d.count = _
    rw [hcount, DictBody.countAfter, hscan]

/-- The insertion of a key that has not been found. -/
theorem dictSet_inserted (hb : Balanced ∅ h owed) (hroom : Countable h)
    (hbody : h.body r = some (.dict d₀)) (hv : ∀ x ∈ v.refs, x ∈ owed)
    (hloses : Loses d d₀.refs [])
    (hentries : d.entries.filter HeapEntry.isLive = d₀.entries.filter HeapEntry.isLive)
    (hcount : d.count + 1 = d₀.countAfter h key)
    (hnone : ∀ x ∈ d₀.entries, h.holdsString key x = .ok false)
    (hscan : ObjectHeap.scan (fun e => .ok (!e.isOccupied || e.isDeleted)) 0 d.entries =
      .ok (some slot))
    (hset : h.dictSet r key v =
      (h.stringNew (cString key)).2.insertFirstFree r h.size d v) :
    ∃ h' d', h.dictSet r key v = .ok (h', true) ∧ DictStored h h' owed r d₀ d' key v := by
  have hself : h.body r ≠ none := by
    rw [hbody]
    exact Option.some_ne_none _
  have hb₁ := balanced_stringNew hb (cString key)
  have hbody₁ : (h.stringNew (cString key)).2.body r = some (.dict d₀) :=
    (body_stringNew_of_ne (hb.ne_size hself)).trans hbody
  obtain ⟨h', hinsert, hi⟩ := insertFirstFree_returns (v := v) hb₁
    (countable_stringNew hroom (cString key)) hbody₁
    (fun x hx => hb₁.ledger.count_ne_zero
      (List.count_pos_iff.mpr (List.mem_cons_of_mem _ (hv x hx))).ne') hscan
  have hb' : Balanced ∅ h' owed := insertFirstFree_spec hb₁ hbody₁ hloses v (h', true) hinsert
  obtain ⟨before, f, after, hsplit, hslot, -, htest⟩ := scan_split 0 hscan
  obtain rfl : slot = before.length := hslot.trans (Nat.zero_add _)
  have hfree : f.isLive = false := by
    have hpasses : (!f.isOccupied || f.isDeleted) = true := Except.ok.inj htest
    rw [HeapEntry.isLive]
    revert hpasses
    cases f.isOccupied <;> cases f.isDeleted <;> simp
  have hat : d.entries[before.length]? = some f := by
    rw [hsplit, List.getElem?_append_right (Nat.le_refl _), Nat.sub_self]
    rfl
  refine ⟨h', _, hset.trans hinsert, .of_inserted hb hb' (fun x => ?_) (fun a har hak => .inl ?_)
    hbody hi.body hfree (hsplit ▸ hentries) ?_ hcount hnone ?_⟩
  · have hlimit := countable_stringNew hroom (cString key) x
    have hle := hi.count_le hb₁ hb' hbody₁ hloses hat hfree x
    omega
  · rw [hi.others a har]
    exact body_stringNew_of_ne hak
  · show d.entries.set before.length _ = _
    rw [hsplit, set_append_cons]
  · rw [ObjectHeap.stringAt, hi.others _ (hb.ne_size hself).symm]
    rw [show (h.stringNew (cString key)).2.body h.size = _ from
      body_create h (.string (cString key))]

/-- **A set that has a place** returns, and is read back. -/
theorem dictSet_stored (hb : Balanced ∅ h owed) (hroom : Countable h)
    (hbody : h.body r = some (.dict d₀)) (hr : r ∈ owed) (hv : ∀ x ∈ v.refs, x ∈ owed)
    (hplace : h.scannedPlace r key v = .ok (some place)) :
    ∃ h' d', h.dictSet r key v = .ok (h', true) ∧ DictStored h h' owed r d₀ d' key v := by
  have hself : h.body r ≠ none := by
    rw [hbody]
    exact Option.some_ne_none _
  have hget : (h.stringNew (cString key)).2.getDict r = .ok d₀ := by
    rw [ObjectHeap.getDict, body_stringNew_of_ne (hb.ne_size hself), hbody]
  unfold ObjectHeap.scannedPlace at hplace
  dsimp only at hplace
  rw [hget] at hplace
  obtain ⟨d, hd, hplace⟩ := bind_eq_ok.mp hplace
  obtain rfl := Except.ok.inj hd
  split at hplace
  · cases hplace
  rename_i hmatch
  have hset := dictSet_eq hget (Bool.not_eq_true _ ▸ hmatch)
  have hscanned := scan_stringNew hb hbody (cString key) key
  have hsize : (h.stringNew (cString key)).1 = h.size := rfl
  have hentries : (d₀.adoptTypes (.string (some h.size)) v).entries = d₀.entries := rfl
  rw [setChecked, hentries, hscanned] at hset
  rw [hsize, hentries, hscanned] at hplace
  obtain ⟨found, hscan, hplace⟩ := bind_eq_ok.mp hplace
  rw [hscan] at hset
  cases found with
  | some slot =>
      obtain ⟨before, e, after, hsplit, hslot, hbefore, he⟩ := scan_split 0 hscan
      obtain rfl : slot = before.length := hslot.trans (Nat.zero_add _)
      refine dictSet_found hb hroom hbody hr hv hentries rfl hsplit hbefore he (hset.trans ?_)
      have hat : (d₀.adoptTypes (.string (some h.size)) v).entryAt before.length = .ok e := by
        rw [DictBody.entryAt, hentries, hsplit, List.getElem?_append_right (Nat.le_refl _),
          Nat.sub_self]
        rfl
      show ((d₀.adoptTypes (.string (some h.size)) v).entryAt before.length >>= _) = _
      rw [hat]
      rfl
  | none =>
      have hnone := (scan_spec 0 d₀.entries none hscan).2 rfl
      have hafter : d₀.countAfter h key =
          (if d₀.header.loadReached then (d₀.entries.countP HeapEntry.isLive : ℤ)
            else d₀.count) + 1 := by
        rw [DictBody.countAfter, hscan]
      have hheader : (d₀.adoptTypes (.string (some h.size)) v).header.loadReached =
        d₀.header.loadReached := rfl
      dsimp only at hplace
      have hset' : h.dictSet r key v = (if d₀.header.loadReached then do
          let newCapacity ← (d₀.adoptTypes (.string (some h.size)) v).header.grownCapacity
          if newCapacity < 0 then
            let h' ← (h.stringNew (cString key)).2.write r
              (.dict (d₀.adoptTypes (.string (some h.size)) v))
            return (← h'.releaseRefs [h.size], false)
          else
            let d ← ObjectHeap.compactLoop d₀.entries
              ((d₀.adoptTypes (.string (some h.size)) v).emptied newCapacity)
            (h.stringNew (cString key)).2.insertFirstFree r h.size d v
        else (h.stringNew (cString key)).2.insertFirstFree r h.size
          (d₀.adoptTypes (.string (some h.size)) v) v) := hset
      rw [hheader] at hplace
      split at hplace
      · rename_i hload
        rw [if_pos hload] at hset' hafter
        obtain ⟨newCapacity, hgrown, hplace⟩ := bind_eq_ok.mp hplace
        split at hplace
        · cases hplace
        · rename_i hpositive
          obtain ⟨d', hcompact, hplace⟩ := bind_eq_ok.mp hplace
          obtain ⟨found, hfree, hfound⟩ := bind_eq_ok.mp hplace
          obtain ⟨slot, rfl, -⟩ := Option.map_eq_some_iff.mp (Except.ok.inj hfound)
          obtain ⟨hlive, hcount⟩ := compact_emptied_entries hgrown hpositive hcompact
          refine dictSet_inserted hb hroom hbody hv
            (compact_emptied_spec hgrown hpositive d' hcompact) hlive ?_ hnone hfree ?_
          · rw [hcount, hafter, hentries]
          · rw [hset', hgrown]
            show (if newCapacity < 0 then _ else _) = _
            rw [if_neg hpositive, hcompact]
            rfl
      · rename_i hload
        rw [if_neg hload] at hset' hafter
        obtain ⟨found, hfree, hfound⟩ := bind_eq_ok.mp hplace
        obtain ⟨slot, rfl, -⟩ := Option.map_eq_some_iff.mp (Except.ok.inj hfound)
        exact dictSet_inserted (d := d₀.adoptTypes (.string (some h.size)) v) hb hroom hbody hv
          (loses_nothing d₀) rfl hafter.symm hnone hfree hset'

/-- A set that returns has a place. -/
theorem scannedPlace_of_dictSet (hset : h.dictSet r key v = .ok (h', true)) :
    ∃ place, h.scannedPlace r key v = .ok (some place) := by
  unfold ObjectHeap.dictSet at hset
  unfold ObjectHeap.scannedPlace
  dsimp only at hset ⊢
  obtain ⟨d, hget, hset⟩ := bind_eq_ok.mp hset
  rw [hget]
  have hinserted {d' : DictBody} {h₁ : ObjectHeap} {k : Ref}
      (hrun : h₁.insertFirstFree r k d' v = .ok (h', true)) : ∃ place, (do
        let found ← ObjectHeap.scan (fun e => .ok (!e.isOccupied || e.isDeleted)) 0 d'.entries
        return found.map fun slot => ⟨some (r, slot), .nil, .nil⟩) =
          (.ok (some place) : Exec (Option Place)) := by
    rw [ObjectHeap.insertFirstFree] at hrun
    obtain ⟨found, hscan, hrun⟩ := bind_eq_ok.mp hrun
    rw [hscan]
    cases found with
    | some slot => exact ⟨_, rfl⟩
    | none =>
        obtain ⟨h₂, -, hrun⟩ := bind_eq_ok.mp hrun
        obtain ⟨h₃, -, hrun⟩ := bind_eq_ok.mp hrun
        cases hrun
  show ∃ place, (if (DictBody.mismatch d.keyType _ || DictBody.mismatch d.valueType v) = true
    then _ else _) = _
  split at hset
  · obtain ⟨h₂, -, hset⟩ := bind_eq_ok.mp hset
    cases hset
  rename_i hkey
  split at hset
  · obtain ⟨h₂, -, hset⟩ := bind_eq_ok.mp hset
    cases hset
  rename_i hvalue
  rw [if_neg (by rw [Bool.or_eq_true]; exact not_or.mpr ⟨hkey, hvalue⟩)]
  obtain ⟨found, hscan, hset⟩ := bind_eq_ok.mp hset
  rw [hscan]
  cases found with
  | some slot =>
      obtain ⟨e, hentry, -⟩ := bind_eq_ok.mp hset
      refine ⟨⟨some (r, slot), e.value, .nil⟩, bind_eq_ok.mpr ⟨some slot, rfl, ?_⟩⟩
      exact bind_eq_ok.mpr ⟨e, hentry, rfl⟩
  | none =>
      dsimp only at hset
      split at hset
      · rename_i hload
        obtain ⟨newCapacity, hgrown, hset⟩ := bind_eq_ok.mp hset
        split at hset
        · obtain ⟨h₂, -, hset⟩ := bind_eq_ok.mp hset
          obtain ⟨h₃, -, hset⟩ := bind_eq_ok.mp hset
          cases hset
        · rename_i hpositive
          obtain ⟨d', hcompact, hset⟩ := bind_eq_ok.mp hset
          obtain ⟨place, hplace⟩ := hinserted hset
          refine ⟨place, bind_eq_ok.mpr ⟨none, rfl, ?_⟩⟩
          rw [if_pos hload]
          refine bind_eq_ok.mpr ⟨newCapacity, hgrown, ?_⟩
          rw [if_neg hpositive]
          exact bind_eq_ok.mpr ⟨d', hcompact, hplace⟩
      · rename_i hload
        obtain ⟨place, hplace⟩ := hinserted hset
        refine ⟨place, bind_eq_ok.mpr ⟨none, rfl, ?_⟩⟩
        rw [if_neg hload]
        exact hplace

end DictSet

end BreadLang
