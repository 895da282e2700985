import BreadLang.Core.Dict

/-!
# The dictionary as a table

The entries of a dictionary form a table with open addressing: the two flags of
an entry say whether its slot is empty, a tombstone or live.  Under the
invariant `Inv` the loops of the source are the operations of that table:

* `findSlot_eq` — `bread_dict_find_slot` is the table's search;
* `storeAt_spec` — storing at the slot it returns updates the denoted map;
* `resize_keeps_pairs` — `bread_dict_resize` keeps the live pairs and leaves no
  tombstone.

Keys are *plain*: `Int`, `Bool`, or a `String` without NUL.  On plain keys the
comparison of the source is equality.  On other strings it is not, since
`strcmp` stops at the first NUL, and on doubles it is not an equivalence.
-/

namespace BreadLang

open OpenAddressing

/-! ### Plain keys -/

/-- Keys on which the comparison of the source is equality. -/
def BreadValue.isPlainKey : BreadValue → Bool
  | .int _ => true
  | .bool _ => true
  | .string s => !s.contains nul
  | _ => false

/-- A plain key. -/
abbrev PlainKey := { k : BreadValue // k.isPlainKey = true }

theorem BreadValue.type_ne_nil_of_isPlainKey {k : BreadValue}
    (h : k.isPlainKey = true) : k.type ≠ .typeNil := by
  cases k <;> simp_all [BreadValue.isPlainKey, BreadValue.type]

theorem BreadValue.nul_notMem_of_isPlainKey {s : BreadString}
    (h : (BreadValue.string s).isPlainKey = true) : nul ∉ s := by
  simpa [BreadValue.isPlainKey] using h

/-- Plain keys are equal for the dictionary exactly when they are equal. -/
theorem BreadDict.keysEqual_iff {a b : BreadValue} (ha : a.isPlainKey = true)
    (hb : b.isPlainKey = true) : keysEqual a b = true ↔ a = b := by
  cases a with
  | int m => cases b <;> simp [keysEqual]
  | bool p => cases b <;> simp [keysEqual]
  | string s =>
      cases b with
      | string t =>
          rw [keysEqual, cString_of_notMem (BreadValue.nul_notMem_of_isPlainKey ha),
            cString_of_notMem (BreadValue.nul_notMem_of_isPlainKey hb)]
          simp
      | _ => simp [keysEqual]
  | _ => simp [BreadValue.isPlainKey] at ha

/-! ### The table of a dictionary -/

/-- What the two flags of an entry say about its slot. -/
def BreadDictEntry.slot (e : BreadDictEntry) : Slot BreadValue BreadValue :=
  if e.isOccupied then
    if e.isDeleted then .tombstone else .live e.key e.value
  else .empty

theorem BreadDictEntry.isLive_slot (e : BreadDictEntry) :
    e.slot.isLive = e.isLive := by
  cases ho : e.isOccupied <;> cases hd : e.isDeleted <;>
    simp [BreadDictEntry.slot, BreadDictEntry.isLive, ho, hd]

theorem BreadDictEntry.slot_of_isLive {e : BreadDictEntry}
    (h : e.isLive = true) : e.slot = .live e.key e.value := by
  simp_all [BreadDictEntry.slot, BreadDictEntry.isLive]

theorem BreadDictEntry.slot_eq_live_iff {e : BreadDictEntry} {k v : BreadValue} :
    e.slot = .live k v ↔ e.isLive = true ∧ e.key = k ∧ e.value = v := by
  cases ho : e.isOccupied <;> cases hd : e.isDeleted <;>
    simp [BreadDictEntry.slot, BreadDictEntry.isLive, ho, hd]

@[simp] theorem BreadDictEntry.slot_zero : BreadDictEntry.zero.slot = .empty := rfl

@[simp] theorem BreadDictEntry.slot_stored (k v : BreadValue) :
    (BreadDictEntry.mk k v true false).slot = .live k v := rfl

@[simp] theorem BreadDictEntry.slot_deleted (k v : BreadValue) :
    (BreadDictEntry.mk k v true true).slot = .tombstone := rfl

namespace BreadDict

/-- The home of a key, before it is reduced to the capacity. -/
def home (k : BreadValue) : ℕ := (hashKey k).toNat

/-- The table the entries of a dictionary form. -/
def table (d : BreadDict) : Table BreadValue BreadValue :=
  d.entries.map BreadDictEntry.slot

@[simp] theorem length_table (d : BreadDict) : d.table.length = d.entries.length := by
  simp [table]

theorem table_getElem? (d : BreadDict) (s : ℕ) :
    d.table[s]? = d.entries[s]?.map BreadDictEntry.slot := by
  simp [table]

theorem entryAt_eq {d : BreadDict} {s : ℕ} {e : BreadDictEntry}
    (h : d.entries[s]? = some e) : d.entryAt s = .ok e := by
  rw [entryAt, h]

/-- What the search of a dictionary relies on, whatever the types of its keys. -/
structure Searchable (d : BreadDict) : Prop where
  sized : d.capacity = d.entries.length
  bounded : d.capacity ≤ intMax
  plain : ∀ {s : ℕ} {k v : BreadValue},
    d.table[s]? = some (.live k v) → k.isPlainKey = true

/-- **The shape of a dictionary** with plain keys: everything the search relies
on.  `keyTyped` speaks about the live keys only, since the key type outlives
the entries it was taken from. -/
structure Shape (d : BreadDict) : Prop where
  sized : d.capacity = d.entries.length
  bounded : d.capacity ≤ intMax
  plain : ∀ {s : ℕ} {k v : BreadValue},
    d.table[s]? = some (.live k v) → k.isPlainKey = true
  keyTyped : ∀ {s : ℕ} {k v : BreadValue},
    d.table[s]? = some (.live k v) → k.type = d.keyType
  wellFormed : WellFormed home d.table

/-- **The invariant of a dictionary**: its shape, and a count that is right. -/
structure Inv (d : BreadDict) : Prop extends d.Shape where
  count_eq : d.count = liveCount d.table

theorem Shape.searchable {d : BreadDict} (hd : d.Shape) : d.Searchable :=
  ⟨hd.sized, hd.bounded, hd.plain⟩

theorem Shape.liveCount_le {d : BreadDict} (hd : d.Shape) :
    (liveCount d.table : ℤ) ≤ d.capacity := by
  have hle : liveCount d.table ≤ d.table.length := List.countP_le_length
  rw [length_table] at hle
  rw [hd.sized]
  exact_mod_cast hle

/-! ### The search -/

theorem Searchable.startSlot_eq {d : BreadDict} (hd : d.Searchable) (key : BreadValue) :
    d.startSlot key = home key % d.entries.length := by
  have h₀ : 0 ≤ d.capacity := by rw [hd.sized]; omega
  rw [startSlot, toUnsigned_of_mem h₀ hd.bounded, hd.sized, Int.toNat_natCast, home]

/-- What the search tests at one slot. -/
private theorem stops_slot {e : BreadDictEntry} {key : BreadValue}
    (hkey : key.isPlainKey = true) (he : e.isLive = true → e.key.isPlainKey = true) :
    e.slot.stops key =
      (!e.isOccupied || e.isDeleted || keysEqual e.key key) := by
  cases ho : e.isOccupied with
  | false => simp [BreadDictEntry.slot, ho, Slot.stops]
  | true =>
      cases hdel : e.isDeleted with
      | true => simp [BreadDictEntry.slot, ho, hdel, Slot.stops]
      | false =>
          have hplain := he (by simp [BreadDictEntry.isLive, ho, hdel])
          have hiff := keysEqual_iff hplain hkey
          by_cases heq : e.key = key
          · simp [BreadDictEntry.slot, ho, hdel, Slot.stops, heq, heq ▸ hiff.mpr heq]
          · have : keysEqual e.key key = false := by
              simpa using fun h => heq (hiff.mp h)
            simp [BreadDictEntry.slot, ho, hdel, Slot.stops, heq, this]

/-- The test of the table's search at slot `s`. -/
private def stopsAt (d : BreadDict) (key : BreadValue) (s : ℕ) : Bool :=
  (d.table[s]?.map (Slot.stops key)).getD true

private theorem Searchable.stopsAt_eq {d : BreadDict} (hd : d.Searchable) {key : BreadValue}
    (hkey : key.isPlainKey = true) {s : ℕ} {e : BreadDictEntry}
    (he : d.entries[s]? = some e) :
    d.stopsAt key s = (!e.isOccupied || e.isDeleted || keysEqual e.key key) := by
  have hslot : d.table[s]? = some e.slot := by rw [table_getElem?, he]; rfl
  rw [stopsAt, hslot, Option.map_some, Option.getD_some]
  refine stops_slot hkey fun hlive => ?_
  exact hd.plain (s := s) (v := e.value)
    (by rw [hslot, BreadDictEntry.slot_of_isLive hlive])

/-- One iteration of the loop, in terms of the table's test. -/
private theorem Searchable.findSlotLoop_succ {d : BreadDict} (hd : d.Searchable)
    {key : BreadValue} (hkey : key.isPlainKey = true) (start n : ℕ) {slot : ℕ}
    (hslot : slot < d.entries.length) :
    d.findSlotLoop key start (n + 1) slot =
      if d.stopsAt key slot then .ok (some slot)
      else if (slot + 1) % d.entries.length = start then .ok none
      else d.findSlotLoop key start n ((slot + 1) % d.entries.length) := by
  have he : d.entries[slot]? = some d.entries[slot] := List.getElem?_eq_getElem hslot
  have hcap : d.capacity.toNat = d.entries.length := by
    rw [hd.sized, Int.toNat_natCast]
  rw [hd.stopsAt_eq hkey he, findSlotLoop, entryAt, he, hcap]
  cases ho : d.entries[slot].isOccupied <;>
    cases hdel : d.entries[slot].isDeleted <;>
      cases heq : keysEqual d.entries[slot].key key <;>
        simp [ho, hdel, heq, bind, Except.bind, pure, Except.pure]

/-- The loop finds what the table's search finds.  The induction is on the
iterations left; before iteration `j` the slots visited so far have all failed
the test, and the walk is at its `j`-th slot. -/
private theorem Searchable.findSlotLoop_eq {d : BreadDict} (hd : d.Searchable)
    {key : BreadValue} (hkey : key.isPlainKey = true) (n : ℕ) :
    ∀ j < d.entries.length, d.entries.length - j ≤ n →
      (∀ i < j, d.stopsAt key (Probe.visit (home key) d.entries.length i) = false) →
      d.findSlotLoop key (home key % d.entries.length) n
          (Probe.visit (home key) d.entries.length j) =
        .ok (find home d.table key) := by
  induction n with
  | zero =>
      intro j hj hn
      omega
  | succ n ih =>
      intro j hj hn hbefore
      have hcap : 0 < d.entries.length := by omega
      have hvisit := Probe.visit_lt (h := home key) (j := j) hcap
      rw [hd.findSlotLoop_succ hkey _ _ hvisit, find, length_table]
      by_cases hstop : d.stopsAt key (Probe.visit (home key) d.entries.length j)
      · rw [if_pos hstop]
        refine congrArg _ (Probe.search_eq_some_iff.mpr ⟨hvisit, hstop, ?_⟩).symm
        intro t ht hrank
        rw [Probe.rank_visit hj] at hrank
        rw [← Probe.visit_rank (h := home key) ht]
        exact hbefore _ hrank
      · rw [if_neg hstop, ← Probe.visit_succ]
        have hbefore' : ∀ i < j + 1,
            d.stopsAt key (Probe.visit (home key) d.entries.length i) = false := by
          intro i hi
          rcases Nat.lt_succ_iff_lt_or_eq.mp hi with hlt | rfl
          · exact hbefore i hlt
          · simpa using hstop
        by_cases hlast : j + 1 = d.entries.length
        · have hwrap : Probe.visit (home key) d.entries.length (j + 1) =
              home key % d.entries.length := by
            rw [hlast, Probe.visit, Nat.add_mod_right]
          rw [if_pos hwrap]
          refine congrArg _ (Probe.search_eq_none_iff.mpr ?_).symm
          intro t ht
          rw [← Probe.visit_rank (h := home key) ht]
          exact hbefore' _ (by rw [hlast]; exact Probe.rank_lt hcap)
        · have hnext : j + 1 < d.entries.length := by omega
          have hne : Probe.visit (home key) d.entries.length (j + 1) ≠
              home key % d.entries.length := by
            rw [← Probe.visit_zero]
            intro heq
            have hrank := Probe.rank_visit (h := home key) hnext
            rw [heq, Probe.rank_visit hcap] at hrank
            omega
          rw [if_neg hne, ih (j + 1) hnext (by omega) hbefore', find, length_table]

/-- `bread_dict_find_slot` is the search of the table. -/
theorem Searchable.findSlot_eq {d : BreadDict} (hd : d.Searchable) {key : BreadValue}
    (hkey : key.isPlainKey = true) :
    d.findSlot key = .ok (find home d.table key) := by
  have hsized := hd.sized
  by_cases hcap : d.capacity = 0
  · have hlen : d.entries.length = 0 := by omega
    rw [findSlot, if_pos hcap, find, length_table, hlen]
    rfl
  · have hpos : 0 < d.entries.length := by omega
    rw [findSlot, if_neg hcap, hd.startSlot_eq, ← Probe.visit_zero]
    have h := hd.findSlotLoop_eq hkey (d.entries.length + 1) 0 hpos (by omega)
      (by intro i hi; omega)
    rw [Probe.visit_zero] at h
    rw [Probe.visit_zero]
    exact h

theorem Shape.findSlot_eq {d : BreadDict} (hd : d.Shape) {key : BreadValue}
    (hkey : key.isPlainKey = true) :
    d.findSlot key = .ok (find home d.table key) :=
  hd.searchable.findSlot_eq hkey

/-! ### Writing one entry -/

/-- The dictionary with one entry rewritten. -/
def setEntry (d : BreadDict) (s : ℕ) (e : BreadDictEntry) (count : ℤ) :
    BreadDict :=
  { d with entries := d.entries.set s e, count := count }

theorem table_setEntry (d : BreadDict) (s : ℕ) (e : BreadDictEntry)
    (count : ℤ) : (d.setEntry s e count).table = d.table.set s e.slot := by
  simp [setEntry, table, List.map_set]

theorem Searchable.setEntry {d : BreadDict} (hd : d.Searchable) {s : ℕ}
    {e : BreadDictEntry} (count : ℤ)
    (hkey : ∀ k v, e.slot = .live k v → k.isPlainKey = true) :
    (d.setEntry s e count).Searchable where
  sized := by simpa [BreadDict.setEntry] using hd.sized
  bounded := hd.bounded
  plain := by
    intro t k v ht
    rw [table_setEntry] at ht
    rcases getElem?_set_eq_some ht with ⟨_, heq⟩ | ⟨_, hold⟩
    · exact hkey k v heq.symm
    · exact hd.plain hold

/-- Rewriting an entry keeps the shape if the new table is well formed and a key
written is a plain key of the dictionary's type. -/
theorem Shape.setEntry {d : BreadDict} (hd : d.Shape) {s : ℕ}
    {e : BreadDictEntry} (count : ℤ)
    (hkey : ∀ k v, e.slot = .live k v → k.isPlainKey = true ∧ k.type = d.keyType)
    (hwf : WellFormed home (d.table.set s e.slot)) :
    (d.setEntry s e count).Shape := by
  obtain ⟨hsized, hbounded, hplain⟩ :=
    hd.searchable.setEntry (s := s) count fun k v hslot => (hkey k v hslot).1
  refine ⟨hsized, hbounded, hplain, ?_, by rw [table_setEntry]; exact hwf⟩
  intro t k v ht
  rw [table_setEntry] at ht
  rcases getElem?_set_eq_some ht with ⟨_, heq⟩ | ⟨_, hold⟩
  · exact (hkey k v heq.symm).2
  · exact hd.keyTyped hold

/-- It keeps the invariant if the count follows. -/
theorem Inv.setEntry {d : BreadDict} (hd : d.Inv) {s : ℕ}
    {e : BreadDictEntry} {count : ℤ}
    (hkey : ∀ k v, e.slot = .live k v → k.isPlainKey = true ∧ k.type = d.keyType)
    (hwf : WellFormed home (d.table.set s e.slot))
    (hcount : count = liveCount (d.table.set s e.slot)) :
    (d.setEntry s e count).Inv where
  toShape := hd.toShape.setEntry count hkey hwf
  count_eq := by rw [table_setEntry]; exact hcount

/-- What storing a pair at a slot leaves alone. -/
structure SameFrame (d d' : BreadDict) : Prop where
  capacity : d'.capacity = d.capacity
  keyType : d'.keyType = d.keyType
  valueType : d'.valueType = d.valueType

/-- **Storing at the slot the search returns** updates the map at the key. -/
theorem Inv.storeAt_spec {d : BreadDict} (hd : d.Inv) {key : BreadValue}
    (hkey : key.isPlainKey = true) (htype : key.type = d.keyType)
    (hclear : Unblocked home d.table key) {s : ℕ}
    (hfind : find home d.table key = some s) (value : BreadValue) :
    ∃ d', d.storeAt s key value = .ok d' ∧ d'.Inv ∧ SameFrame d d' ∧
      d'.table = d.table.set s (.live key value) ∧
      denote d'.table = Function.update (denote d.table) key (some value) := by
  obtain ⟨hwf, hdenote⟩ := place_find hd.wellFormed hclear value hfind
  obtain ⟨hlt, honly, _⟩ := find_eq_some_iff.mp hfind
  rw [length_table] at hlt
  have he : d.entries[s]? = some d.entries[s] := List.getElem?_eq_getElem hlt
  have hslot : d.table[s]? = some d.entries[s].slot := by
    rw [table_getElem?, he]; rfl
  have hcount := liveCount_place key value hslot
  rw [BreadDictEntry.isLive_slot] at hcount
  -- both branches leave the same slot behind; they differ in the count
  have finish : ∀ (e : BreadDictEntry) (count : ℤ), e.slot = .live key value →
      count = liveCount (d.table.set s (.live key value)) →
      (d.setEntry s e count).Inv ∧ SameFrame d (d.setEntry s e count) ∧
        (d.setEntry s e count).table = d.table.set s (.live key value) ∧
        denote (d.setEntry s e count).table =
          Function.update (denote d.table) key (some value) := by
    intro e count hes hc
    refine ⟨hd.setEntry ?_ (hes ▸ hwf) (hes ▸ hc), ⟨rfl, rfl, rfl⟩,
      by rw [table_setEntry, hes], by rw [table_setEntry, hes]; exact hdenote⟩
    intro k v hkv
    rw [hes] at hkv
    simp only [Slot.live.injEq] at hkv
    obtain ⟨rfl, rfl⟩ := hkv
    exact ⟨hkey, htype⟩
  cases hlive : d.entries[s].isLive with
  | true =>
      have hsame : d.entries[s].key = key :=
        honly _ _ (by rw [hslot, BreadDictEntry.slot_of_isLive hlive])
      refine ⟨d.setEntry s { d.entries[s] with value := value } d.count, ?_,
        finish _ _ ?_ ?_⟩
      · rw [storeAt, entryAt, he]
        simp [hlive, bind, Except.bind, pure, Except.pure, BreadDict.setEntry]
      · rw [BreadDictEntry.slot_of_isLive (by simpa [BreadDictEntry.isLive] using hlive),
          hsame]
      · rw [hcount, if_pos hlive, hd.count_eq]
  | false =>
      refine ⟨d.setEntry s ⟨key, value, true, false⟩ (d.count + 1), ?_,
        finish _ _ (BreadDictEntry.slot_stored key value) ?_⟩
      · rw [storeAt, entryAt, he]
        simp [hlive, bind, Except.bind, pure, Except.pure, BreadDict.setEntry]
      · rw [hcount, if_neg (by simp [hlive]), hd.count_eq]
        rfl

/-! ### Resizing -/

/-- The live pairs of a list of entries. -/
def livePairs (es : List BreadDictEntry) : List (BreadValue × BreadValue) :=
  pairs (es.map BreadDictEntry.slot)

@[simp] theorem livePairs_nil : livePairs [] = [] := rfl

theorem livePairs_cons_of_isLive {e : BreadDictEntry} (h : e.isLive = true)
    (es : List BreadDictEntry) :
    livePairs (e :: es) = (e.key, e.value) :: livePairs es := by
  rw [livePairs, List.map_cons, BreadDictEntry.slot_of_isLive h]
  rfl

theorem livePairs_cons_of_not_isLive {e : BreadDictEntry} (h : e.isLive = false)
    (es : List BreadDictEntry) : livePairs (e :: es) = livePairs es := by
  have hslot : e.slot.pair? = none := by
    have := e.isLive_slot
    rw [h] at this
    cases hs : e.slot <;> simp_all [Slot.pair?]
  rw [livePairs, List.map_cons, pairs, List.filterMap_cons_none hslot]
  rfl

/-- The live entries of a list, in order. -/
def liveEntries (es : List BreadDictEntry) : List BreadDictEntry :=
  es.filter BreadDictEntry.isLive

theorem liveEntries_cons_of_isLive {e : BreadDictEntry} (h : e.isLive = true)
    (es : List BreadDictEntry) : liveEntries (e :: es) = e :: liveEntries es :=
  List.filter_cons_of_pos h

theorem liveEntries_cons_of_not_isLive {e : BreadDictEntry} (h : e.isLive = false)
    (es : List BreadDictEntry) : liveEntries (e :: es) = liveEntries es :=
  List.filter_cons_of_neg (by simp [h])

/-- The slots of the live entries are the live slots. -/
theorem slot_liveEntries (es : List BreadDictEntry) :
    (liveEntries es).map BreadDictEntry.slot =
      (livePairs es).map fun p => .live p.1 p.2 := by
  induction es with
  | nil => rfl
  | cons e es ih =>
      cases hlive : e.isLive with
      | false =>
          rw [liveEntries_cons_of_not_isLive hlive,
            livePairs_cons_of_not_isLive hlive, ih]
      | true =>
          rw [liveEntries_cons_of_isLive hlive, livePairs_cons_of_isLive hlive,
            List.map_cons, List.map_cons, ih, BreadDictEntry.slot_of_isLive hlive]

theorem length_liveEntries (d : BreadDict) :
    (liveEntries d.entries).length = liveCount d.table := by
  have h := congrArg List.length (slot_liveEntries d.entries)
  rw [List.length_map, List.length_map] at h
  rw [h, ← length_pairs]
  rfl

/-- A live entry is the live slot of its key. -/
theorem slot_of_mem_liveEntries {d : BreadDict} {e : BreadDictEntry}
    (he : e ∈ liveEntries d.entries) :
    ∃ s : ℕ, d.table[s]? = some (.live e.key e.value) := by
  obtain ⟨hmem, hlive⟩ := List.mem_filter.mp he
  obtain ⟨s, hs⟩ := List.mem_iff_getElem?.mp hmem
  exact ⟨s, by
    rw [table_getElem?, hs, Option.map_some, BreadDictEntry.slot_of_isLive hlive]⟩

/-- A table without tombstones that the search can rely on, and a count that is right. -/
structure Compact (d : BreadDict) : Prop extends d.Searchable where
  wellFormed : WellFormed home d.table
  noTombstone : NoTombstone d.table
  count_eq : d.count = liveCount d.table

/-- One turn of the reinsertion loop: a key that is not in the table goes to a free slot. -/
theorem Compact.reinsert {d : BreadDict} (hd : d.Compact) {e : BreadDictEntry}
    (hlive : e.isLive = true) (hkey : e.key.isPlainKey = true)
    (habsent : denote d.table e.key = none)
    (hroom : liveCount d.table < d.entries.length) :
    ∃ s, d.findSlot e.key = .ok (some s) ∧ (d.setEntry s e (d.count + 1)).Compact ∧
      liveCount (d.setEntry s e (d.count + 1)).table = liveCount d.table + 1 ∧
      denote (d.setEntry s e (d.count + 1)).table =
        Function.update (denote d.table) e.key (some e.value) := by
  have hslot := BreadDictEntry.slot_of_isLive hlive
  obtain ⟨s, hfind⟩ := find_isSome home e.key
    (by rw [length_table]; exact hroom : liveCount d.table < d.table.length)
  obtain ⟨hlt, honly, _⟩ := find_eq_some_iff.mp hfind
  obtain ⟨hwf, hdenote⟩ :=
    place_find hd.wellFormed (unblocked_of_noTombstone hd.noTombstone _) e.value hfind
  -- the slot found is free, since the key is not in the table
  have hfree : d.table[s].isLive = false := by
    cases hx : d.table[s] with
    | empty => rfl
    | tombstone => rfl
    | live k v =>
        have hs : d.table[s]? = some (.live k v) := by
          rw [List.getElem?_eq_getElem hlt, hx]
        rw [honly k v hs] at hs
        exact absurd hs (denote_eq_none_iff.mp habsent s v)
  have hcount : liveCount (d.table.set s e.slot) = liveCount d.table + 1 := by
    rw [hslot, liveCount_place _ _ (List.getElem?_eq_getElem hlt), hfree]
    rfl
  have htable := d.table_setEntry s e (d.count + 1)
  refine ⟨s, by rw [hd.findSlot_eq hkey, hfind], ⟨?_, ?_, ?_, ?_⟩, ?_, ?_⟩
  · refine hd.toSearchable.setEntry _ fun k v hkv => ?_
    rw [hslot] at hkv
    simp only [Slot.live.injEq] at hkv
    exact hkv.1 ▸ hkey
  · rw [htable, hslot]
    exact hwf
  · rw [htable, hslot]
    exact noTombstone_place hd.noTombstone _ _ _
  · rw [htable, hcount, Nat.cast_add, ← hd.count_eq]
    rfl
  · rw [htable, hcount]
  · rw [htable, hslot, hdenote]

/-- The reinsertion loop.  Into a table without tombstones, with room for all
of them, it inserts the live pairs of the list; their keys are distinct and not
in the table yet.  The induction is on the entries left. -/
theorem resizeLoop_spec (es : List BreadDictEntry) :
    ∀ d : BreadDict, d.Compact →
      (∀ p ∈ livePairs es, p.1.isPlainKey = true) →
      ((livePairs es).map Prod.fst).Nodup →
      (∀ p ∈ livePairs es, denote d.table p.1 = none) →
      liveCount d.table + (livePairs es).length ≤ d.entries.length →
      ∃ d', resizeLoop es d = .ok d' ∧ d'.Compact ∧ SameFrame d d' ∧
        liveCount d'.table = liveCount d.table + (livePairs es).length ∧
        ∀ k, denote d'.table k = (assoc (livePairs es) k).or (denote d.table k) := by
  induction es with
  | nil =>
      intro d hd _ _ _ _
      exact ⟨d, rfl, hd, ⟨rfl, rfl, rfl⟩, by simp, by simp⟩
  | cons e es ih =>
      intro d hd hplain hnodup hnew hroom
      cases hlive : e.isLive with
      | false =>
          rw [livePairs_cons_of_not_isLive hlive] at *
          obtain ⟨d', hrun, hrest⟩ := ih d hd hplain hnodup hnew hroom
          exact ⟨d', by simpa [resizeLoop, hlive] using hrun, hrest⟩
      | true =>
          rw [livePairs_cons_of_isLive hlive] at *
          have hnodup' := List.nodup_cons.mp hnodup
          simp only [List.length_cons] at hroom
          obtain ⟨s, hfind, hcompact, hcount, hdenote⟩ := hd.reinsert hlive
            (hplain (e.key, e.value) (by simp)) (hnew (e.key, e.value) (by simp)) (by omega)
          obtain ⟨d', hrun, hcompact', hframe, hlen, hmap⟩ :=
            ih (d.setEntry s e (d.count + 1)) hcompact (fun p hp => hplain p (by simp [hp]))
              hnodup'.2
              (by
                intro p hp
                have hne : p.1 ≠ e.key := by
                  intro heq
                  exact hnodup'.1 (List.mem_map.mpr ⟨p, hp, heq⟩)
                rw [hdenote, Function.update_of_ne hne]
                exact hnew p (by simp [hp]))
              (by
                rw [hcount]
                simp only [BreadDict.setEntry, List.length_set]
                omega)
          refine ⟨d', ?_, hcompact', ⟨hframe.capacity, hframe.keyType, hframe.valueType⟩, ?_, ?_⟩
          · rw [resizeLoop, if_pos hlive, hfind]
            exact hrun
          · rw [hlen, hcount, List.length_cons]
            omega
          · intro k
            rw [hmap k, hdenote, assoc_cons]
            by_cases hk : e.key = k
            · subst hk
              simp [assoc_eq_none_of_notMem hnodup'.1]
            · rw [if_neg hk, Function.update_of_ne (Ne.symm hk)]

/-- The table that `bread_dict_resize` fills. -/
theorem compact_replicate (d : BreadDict) {newCapacity : ℤ} (hpos : 0 < newCapacity)
    (hmax : newCapacity ≤ intMax) :
    Compact { d with
      entries := List.replicate newCapacity.toNat .zero
      capacity := newCapacity
      count := 0 } := by
  have hfresh : BreadDict.table { d with
      entries := List.replicate newCapacity.toNat .zero
      capacity := newCapacity
      count := 0 } = List.replicate newCapacity.toNat Slot.empty := by
    simp [table]
  refine ⟨⟨by simp only [List.length_replicate]; omega, hmax, ?_⟩, ?_, ?_, ?_⟩
  · intro s k v hs
    rw [hfresh] at hs
    simp [List.getElem?_replicate] at hs
  · rw [hfresh]
    exact wellFormed_replicate _ _
  · rw [hfresh]
    exact noTombstone_replicate _
  · rw [hfresh, liveCount_replicate]
    rfl

/-- **`bread_dict_resize` keeps the map** and leaves no tombstone behind, when the new
capacity has room for the live entries.  Their keys are distinct, but the search may not have
reached them. -/
theorem resize_compact {d : BreadDict} {newCapacity : ℤ} (hdistinct : Distinct d.table)
    (hplain : ∀ p ∈ pairs d.table, p.1.isPlainKey = true) (hpos : 0 < newCapacity)
    (hmax : newCapacity ≤ intMax) (hroom : (liveCount d.table : ℤ) ≤ newCapacity) :
    ∃ d', d.resize newCapacity = .ok d' ∧ d'.Compact ∧ d'.capacity = newCapacity ∧
      d'.keyType = d.keyType ∧ d'.valueType = d.valueType ∧
      liveCount d'.table = liveCount d.table ∧ denote d'.table = denote d.table := by
  have hfresh := compact_replicate d hpos hmax
  have hempty : BreadDict.table { d with
      entries := List.replicate newCapacity.toNat .zero
      capacity := newCapacity
      count := 0 } = List.replicate newCapacity.toNat Slot.empty := by
    simp [table]
  have hlength : (livePairs d.entries).length = liveCount d.table := length_pairs d.table
  obtain ⟨d', hrun, hcompact, hframe, hlen, hmap⟩ := resizeLoop_spec d.entries _ hfresh hplain
    (nodup_keys_of_distinct hdistinct)
    (by
      intro p _
      rw [hempty]
      exact denote_replicate _ _)
    (by
      rw [hempty, liveCount_replicate, hlength]
      simp only [List.length_replicate]
      omega)
  refine ⟨d', ?_, hcompact, hframe.capacity, hframe.keyType, hframe.valueType, ?_, ?_⟩
  · rw [resize, if_neg (by omega)]
    exact hrun
  · rw [hlen, hempty, liveCount_replicate, hlength, Nat.zero_add]
  · funext k
    rw [hmap k, hempty, denote_replicate, Option.or_none]
    rfl

/-- A resize keeps the invariant. -/
theorem Inv.resize_spec {d : BreadDict} (hd : d.Inv) {newCapacity : ℤ}
    (hpos : 0 < newCapacity) (hmax : newCapacity ≤ intMax)
    (hroom : (liveCount d.table : ℤ) ≤ newCapacity) :
    ∃ d', d.resize newCapacity = .ok d' ∧ d'.Inv ∧ d'.capacity = newCapacity ∧
      d'.keyType = d.keyType ∧ d'.valueType = d.valueType ∧
      NoTombstone d'.table ∧ liveCount d'.table = liveCount d.table ∧
      denote d'.table = denote d.table := by
  have hplain : ∀ p ∈ pairs d.table, p.1.isPlainKey = true := by
    rintro ⟨k, v⟩ hp
    obtain ⟨s, hs⟩ := mem_pairs.mp hp
    exact hd.plain hs
  obtain ⟨d', hrun, hcompact, hcapacity, hkeyType, hvalueType, hlen, hmap⟩ :=
    resize_compact hd.wellFormed.distinct hplain hpos hmax hroom
  refine ⟨d', hrun, ⟨⟨hcompact.sized, hcompact.bounded, hcompact.plain, ?_,
    hcompact.wellFormed⟩, hcompact.count_eq⟩, hcapacity, hkeyType, hvalueType,
    hcompact.noTombstone, hlen, hmap⟩
  intro s k v hs
  -- the key was live before
  have hdenote := (denote_eq_some_iff hcompact.wellFormed.distinct).mpr ⟨s, hs⟩
  rw [hmap] at hdenote
  obtain ⟨t, ht⟩ := exists_live_of_denote hdenote
  rw [hkeyType]
  exact hd.keyTyped ht

/-- The search of a table without tombstones ends in the slot of a live key. -/
theorem Compact.findSlot_live {d : BreadDict} (hd : d.Compact) {k v : BreadValue}
    (hmem : (k, v) ∈ pairs d.table) :
    ∃ s, d.findSlot k = .ok (some s) ∧ d.table[s]? = some (.live k v) := by
  obtain ⟨s, hs⟩ := mem_pairs.mp hmem
  refine ⟨s, ?_, hs⟩
  rw [hd.findSlot_eq (hd.plain hs),
    find_of_live hd.wellFormed (unblocked_of_noTombstone hd.noTombstone k) hs]

/-- The search for another key ends in an empty slot. -/
theorem Compact.findSlot_empty {d : BreadDict} (hd : d.Compact) {k : BreadValue}
    (hkey : k.isPlainKey = true) (habsent : ∀ v, (k, v) ∉ pairs d.table)
    (hroom : liveCount d.table < d.entries.length) :
    ∃ s, d.findSlot k = .ok (some s) ∧ d.table[s]? = some .empty := by
  obtain ⟨s, hfind⟩ := find_isSome home k
    (by rw [length_table]; exact hroom : liveCount d.table < d.table.length)
  obtain ⟨hlt, honly, -⟩ := find_eq_some_iff.mp hfind
  refine ⟨s, by rw [hd.findSlot_eq hkey, hfind], ?_⟩
  cases hx : d.table[s]? with
  | none => exact absurd hlt (by simpa using hx)
  | some x =>
      cases x with
      | empty => rfl
      | tombstone => exact absurd hx (hd.noTombstone s)
      | live k' v =>
          obtain rfl := honly k' v hx
          exact absurd (mem_pairs.mpr ⟨s, hx⟩) (habsent v)

/-- Tables that denote the same map hold the same pairs. -/
theorem pairs_perm_of_denote {T T' : Table BreadValue BreadValue} (hT : Distinct T)
    (hT' : Distinct T') (hdenote : denote T = denote T') : (pairs T).Perm (pairs T') := by
  have hnodup := (nodup_keys_of_distinct hT).of_map
  have hnodup' := (nodup_keys_of_distinct hT').of_map
  refine (List.perm_ext_iff_of_nodup hnodup hnodup').mpr ?_
  rintro ⟨k, v⟩
  rw [mem_pairs, mem_pairs, ← denote_eq_some_iff hT, ← denote_eq_some_iff hT', hdenote]

/-- **A resize** keeps the live pairs, drops the tombstones and counts what is left; the
search then ends in the slot of a live key, and in an empty one for any other. -/
theorem resize_keeps_pairs {d : BreadDict} {newCapacity : ℤ} (hdistinct : Distinct d.table)
    (hplain : ∀ p ∈ pairs d.table, p.1.isPlainKey = true)
    (hroom : (liveCount d.table : ℤ) < newCapacity) (hmax : newCapacity ≤ intMax) :
    ∃ d', d.resize newCapacity = .ok d' ∧ (pairs d'.table).Perm (pairs d.table) ∧
      NoTombstone d'.table ∧ d'.count = liveCount d'.table ∧
      (∀ k v, (k, v) ∈ pairs d.table →
        ∃ s, d'.findSlot k = .ok (some s) ∧ d'.table[s]? = some (.live k v)) ∧
      ∀ k, k.isPlainKey = true → (∀ v, (k, v) ∉ pairs d.table) →
        ∃ s, d'.findSlot k = .ok (some s) ∧ d'.table[s]? = some .empty := by
  obtain ⟨d', hrun, hcompact, hcapacity, -, -, hlen, hmap⟩ :=
    resize_compact hdistinct hplain (by omega) hmax (by omega)
  have hperm := pairs_perm_of_denote hcompact.wellFormed.distinct hdistinct hmap
  have hfree : liveCount d'.table < d'.entries.length := by
    have hsized := hcompact.sized
    omega
  refine ⟨d', hrun, hperm, hcompact.noTombstone, hcompact.count_eq, fun k v hmem => ?_,
    fun k hkey habsent => ?_⟩
  · exact hcompact.findSlot_live (hperm.mem_iff.mpr hmem)
  · exact hcompact.findSlot_empty hkey (fun v hmem => habsent v (hperm.mem_iff.mp hmem)) hfree

/-- Two live slots around a tombstone, with a count that is not right. -/
def sparse : BreadDict where
  count := 5
  capacity := 3
  keyType := .typeInt
  valueType := .typeNil
  entries :=
    [⟨.int 1, .nil, true, false⟩, ⟨.int 2, .nil, true, true⟩, ⟨.bool true, .nil, true, false⟩]

theorem distinct_sparse : Distinct sparse.table := by
  intro s t k v w hs ht
  rcases s with _ | _ | _ | s <;> rcases t with _ | _ | _ | t <;>
    simp [sparse, table, BreadDictEntry.slot] at hs ht <;> grind

theorem resize_keeps_pairs_sparse :
    ∃ d', sparse.resize 3 = .ok d' ∧ (pairs d'.table).Perm (pairs sparse.table) ∧
      NoTombstone d'.table ∧ d'.count = liveCount d'.table ∧
      (∀ k v, (k, v) ∈ pairs sparse.table →
        ∃ s, d'.findSlot k = .ok (some s) ∧ d'.table[s]? = some (.live k v)) ∧
      ∀ k, k.isPlainKey = true → (∀ v, (k, v) ∉ pairs sparse.table) →
        ∃ s, d'.findSlot k = .ok (some s) ∧ d'.table[s]? = some .empty :=
  resize_keeps_pairs distinct_sparse (by decide) (by decide) (by decide)

end BreadDict
end BreadLang
