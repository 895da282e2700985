import BreadLang.Core.DictTable

/-!
# The dictionary as a finite map

What a dictionary is for: a finite map with the operations set, remove, clear
and two lookups.  `DictOp.spec` is that map; `DictOp.run` is the runtime.

A run of the runtime agrees with the map as long as every step is `Clear`: no
tombstone lies on the probe path of the key between its home and its slot, and
the table can still grow.  The search stops at a tombstone, so a live key
behind one is not found, and setting it stores it a second time; removing one
of two colliding keys is enough to reach that state
(`removed_neighbour_hides_key`).
-/

namespace BreadLang

open OpenAddressing

namespace BreadDict

/-! ### The specification of each operation -/

/-- Growing once more keeps the capacity an `int`. -/
def GrowthFits (d : BreadDict) : Prop :=
  d.needsGrowth = true → d.capacity * 2 ≤ intMax

instance (d : BreadDict) : Decidable d.GrowthFits :=
  inferInstanceAs (Decidable (_ → _))

theorem Inv.liveCount_eq_zero {d : BreadDict} (hd : d.Inv) (h : d.count = 0) :
    liveCount d.table = 0 := by
  have := hd.count_eq
  omega

theorem Inv.not_live_of_count {d : BreadDict} (hd : d.Inv) (h : d.count = 0)
    {s : ℕ} {k v : BreadValue} : d.table[s]? ≠ some (.live k v) := by
  intro hs
  have hzero := List.countP_eq_zero.mp (hd.liveCount_eq_zero h)
  exact hzero _ (List.mem_iff_getElem?.mpr ⟨s, hs⟩) rfl

/-- A dictionary whose key type is nil holds no key. -/
theorem Shape.not_live_of_keyType {d : BreadDict} (hd : d.Shape)
    (h : d.keyType = .typeNil) {s : ℕ} {k v : BreadValue} :
    d.table[s]? ≠ some (.live k v) := by
  intro hs
  exact BreadValue.type_ne_nil_of_isPlainKey (hd.plain hs) ((hd.keyTyped hs).trans h)

theorem Inv.count_eq_zero_of_keyType {d : BreadDict} (hd : d.Inv)
    (h : d.keyType = .typeNil) : d.count = 0 := by
  have hzero : liveCount d.table = 0 := by
    rw [liveCount, List.countP_eq_zero]
    intro x hx hlive
    obtain ⟨k, v, rfl⟩ := Slot.isLive_iff.mp hlive
    obtain ⟨s, hs⟩ := List.mem_iff_getElem?.mp hx
    exact hd.not_live_of_keyType h hs
  rw [hd.count_eq, hzero]
  rfl

@[simp] theorem adoptTypes_entries (d : BreadDict) (k v : BreadValue) :
    (d.adoptTypes k v).entries = d.entries := rfl

@[simp] theorem adoptTypes_table (d : BreadDict) (k v : BreadValue) :
    (d.adoptTypes k v).table = d.table := rfl

@[simp] theorem adoptTypes_count (d : BreadDict) (k v : BreadValue) :
    (d.adoptTypes k v).count = d.count := rfl

@[simp] theorem adoptTypes_capacity (d : BreadDict) (k v : BreadValue) :
    (d.adoptTypes k v).capacity = d.capacity := rfl

theorem adoptTypes_valueType (d : BreadDict) (k v : BreadValue) :
    (d.adoptTypes k v).valueType =
      if d.valueType = .typeNil ∧ d.count = 0 then v.type else d.valueType := rfl

/-- A key that passes the type check determines the key type. -/
theorem Inv.adoptTypes_keyType {d : BreadDict} (hd : d.Inv) {k : BreadValue}
    (h : d.keyMismatch k = false) (v : BreadValue) :
    (d.adoptTypes k v).keyType = k.type := by
  rw [adoptTypes]
  split
  · rfl
  · next hne =>
      simp only [keyMismatch, Bool.and_eq_false_iff, bne_eq_false_iff_eq] at h
      rcases h with hnil | heq
      · exact absurd ⟨hnil, hd.count_eq_zero_of_keyType hnil⟩ hne
      · exact heq

theorem Inv.adoptTypes {d : BreadDict} (hd : d.Inv) (k v : BreadValue) :
    (d.adoptTypes k v).Inv where
  sized := hd.sized
  bounded := hd.bounded
  plain := hd.plain
  keyTyped := by
    intro s k' v' hs
    rw [BreadDict.adoptTypes]
    split
    · next h => exact absurd hs (hd.not_live_of_count h.2)
    · exact hd.keyTyped hs
  wellFormed := hd.wellFormed
  count_eq := hd.count_eq

/-- Growing keeps the map and leaves room for one more key. -/
theorem Inv.growIfNeeded_spec {d : BreadDict} (hd : d.Inv) (hfits : d.GrowthFits) :
    ∃ d', d.growIfNeeded = .ok d' ∧ d'.Inv ∧ d'.keyType = d.keyType ∧
      d'.valueType = d.valueType ∧ denote d'.table = denote d.table ∧
      liveCount d'.table < d'.entries.length ∧ d'.count = d.count ∧
      (d.needsGrowth = true → NoTombstone d'.table) ∧
      (d.needsGrowth = false → d' = d) := by
  have hle := hd.liveCount_le
  have hcount := hd.count_eq
  cases hgrow : d.needsGrowth with
  | false =>
      refine ⟨d, by rw [growIfNeeded, hgrow]; rfl, hd, rfl, rfl, rfl, ?_, rfl,
        by simp, by simp⟩
      have hsized := hd.sized
      rw [needsGrowth, Bool.or_eq_false_iff] at hgrow
      have hne : d.capacity ≠ 0 := by simpa using hgrow.1
      have hpos : 0 < d.capacity := by omega
      have hload := hgrow.2
      simp only [loadExceeded, if_pos hpos, decide_eq_false_iff_not] at hload
      omega
  | true =>
      have hfit := hfits hgrow
      have hbound := hd.bounded
      have grown : ∀ c : ℤ, d.grownCapacity = .ok c → 0 < c → c ≤ intMax →
          (liveCount d.table : ℤ) < c →
          ∃ d', d.growIfNeeded = .ok d' ∧ d'.Inv ∧ d'.keyType = d.keyType ∧
            d'.valueType = d.valueType ∧ denote d'.table = denote d.table ∧
            liveCount d'.table < d'.entries.length ∧ d'.count = d.count ∧
            NoTombstone d'.table := by
        intro c hc hpos hmax hroom
        obtain ⟨d', hrun, hinv, hcap, hkt, hvt, hnt, hlive, hmap⟩ :=
          hd.resize_spec hpos hmax (by omega)
        refine ⟨d', ?_, hinv, hkt, hvt, hmap, ?_, ?_, hnt⟩
        · rw [growIfNeeded, if_pos hgrow, hc]
          exact hrun
        · have hsized := hinv.sized
          omega
        · rw [hinv.count_eq, hcount, hlive]
      have hsized := hd.sized
      by_cases hzero : d.capacity = 0
      · obtain ⟨d', h₁, h₂, h₃, h₄, h₅, h₆, h₇, h₈⟩ := grown 8
          (by rw [grownCapacity, if_pos hzero]) (by omega) (by rw [intMax]; omega)
          (by omega)
        exact ⟨d', h₁, h₂, h₃, h₄, h₅, h₆, h₇, fun _ => h₈, by simp⟩
      · obtain ⟨d', h₁, h₂, h₃, h₄, h₅, h₆, h₇, h₈⟩ := grown (d.capacity * 2)
          (by
            rw [grownCapacity, if_neg hzero]
            exact checkedInt_of_mem ⟨by rw [intMin]; omega, hfit⟩)
          (by omega) hfit (by omega)
        exact ⟨d', h₁, h₂, h₃, h₄, h₅, h₆, h₇, fun _ => h₈, by simp⟩

/-- What `bread_dict_set_safe` needs of the state it is called in: growing must
be possible, and when the table does not grow, no tombstone may hide the key. -/
def SetClear (d : BreadDict) (key : BreadValue) : Prop :=
  d.GrowthFits ∧ (d.needsGrowth = false → Unblocked home d.table key)

instance (d : BreadDict) (key : BreadValue) : Decidable (d.SetClear key) :=
  inferInstanceAs (Decidable (_ ∧ (_ → _)))

/-- What storing a pair does to a dictionary, whichever function stores it. -/
structure SetResult (d : BreadDict) (key value : BreadValue) (d' : BreadDict) :
    Prop where
  inv : d'.Inv
  keyType : d'.keyType = key.type
  valueType : d'.valueType = (d.adoptTypes key value).valueType
  denote_eq : denote d'.table = Function.update (denote d.table) key (some value)
  noTombstone : NoTombstone d.table → NoTombstone d'.table
  count_le : d'.count ≤ d.count + 1

/-- **`bread_dict_set_safe` on accepted types** updates the map at the key. -/
theorem Inv.setSafe_spec {d : BreadDict} (hd : d.Inv) {key value : BreadValue}
    (hkey : key.isPlainKey = true) (hkt : d.keyMismatch key = false)
    (hvt : d.valueMismatch value = false) (hclear : d.SetClear key) :
    ∃ d', d.setSafe key value = .ok (d', .ok ()) ∧ SetResult d key value d' := by
  obtain ⟨d₁, hgrow, hinv₁, hkt₁, hvt₁, hmap₁, hroom, hcount₁, hnt, hsame⟩ :=
    (hd.adoptTypes key value).growIfNeeded_spec hclear.1
  have htype : key.type = d₁.keyType := by
    rw [hkt₁, hd.adoptTypes_keyType hkt]
  have hunblocked : Unblocked home d₁.table key := by
    cases hneeds : d.needsGrowth with
    | true => exact unblocked_of_noTombstone (hnt hneeds) key
    | false =>
        rw [hsame hneeds]
        exact hclear.2 hneeds
  obtain ⟨s, hfind⟩ := find_isSome home key
    (by rw [length_table]; exact hroom : liveCount d₁.table < d₁.table.length)
  obtain ⟨d', hstore, hinv, hframe, htable, hmap⟩ :=
    hinv₁.storeAt_spec hkey htype hunblocked hfind value
  refine ⟨d', ?_, ?_⟩
  · rw [setSafe, hkt, hvt, hgrow]
    simp only [Bool.false_eq_true, if_false, bind, Except.bind,
      hinv₁.findSlot_eq hkey, hfind, hstore, pure, Except.pure]
  · exact
      { inv := hinv
        keyType := by rw [hframe.keyType, ← htype]
        valueType := by rw [hframe.valueType, hvt₁]
        denote_eq := by rw [hmap, hmap₁, adoptTypes_table]
        noTombstone := by
          intro hold
          rw [htable]
          refine noTombstone_place ?_ _ _ _
          cases hneeds : d.needsGrowth with
          | true => exact hnt hneeds
          | false => rw [hsame hneeds]; exact hold
        count_le := by
          have hle : liveCount d'.table ≤ liveCount d₁.table + 1 := by
            obtain ⟨hlt, _⟩ := find_eq_some_iff.mp hfind
            rw [htable, liveCount_place key value (List.getElem?_eq_getElem hlt)]
            split <;> omega
          have h₁ := hinv₁.count_eq
          have h₂ := hinv.count_eq
          rw [adoptTypes_count] at hcount₁
          omega }

/-- A rejected set leaves the dictionary alone. -/
theorem setSafe_of_mismatch {d : BreadDict} {key value : BreadValue}
    (h : d.keyMismatch key = true ∨ d.valueMismatch value = true) :
    ∃ e, d.setSafe key value = .ok (d, .error e) := by
  rw [setSafe]
  by_cases hk : d.keyMismatch key = true
  · exact ⟨_, if_pos hk⟩
  · rw [if_neg hk]
    exact ⟨_, if_pos (h.resolve_left hk)⟩

/-- A key of another type than the dictionary's is not in the map. -/
theorem Shape.denote_of_keyMismatch {d : BreadDict} (hd : d.Shape) {key : BreadValue}
    (h : d.keyMismatch key = true) : denote d.table key = none := by
  rw [denote_eq_none_iff]
  intro s v hs
  have htype := hd.keyTyped hs
  simp [keyMismatch, htype] at h

theorem Shape.denote_of_capacity {d : BreadDict} (hd : d.Shape) (h : d.capacity = 0)
    (key : BreadValue) : denote d.table key = none := by
  have hlen : d.entries.length = 0 := by
    have := hd.sized
    omega
  rw [denote_eq_none_iff]
  intro s v hs
  have hlt := lt_length_of_live hs
  rw [length_table] at hlt
  omega

/-- The search returns a slot of the table. -/
theorem Shape.entryAt_find {d : BreadDict} (_ : d.Shape) {key : BreadValue} {s : ℕ}
    (hfind : find home d.table key = some s) : ∃ e, d.entryAt s = .ok e := by
  have hlt := (find_eq_some_iff.mp hfind).1
  rw [length_table] at hlt
  exact ⟨_, entryAt_eq (List.getElem?_eq_getElem hlt)⟩

/-- What a lookup reads at the slot the search returns. -/
theorem Shape.lookup_at_find {d : BreadDict} (hd : d.Shape) {key : BreadValue}
    (hclear : Unblocked home d.table key) {s : ℕ}
    (hfind : find home d.table key = some s) :
    ∃ e, d.entryAt s = .ok e ∧ d.entries[s]? = some e ∧
      denote d.table key = if e.isLive then some e.value else none := by
  obtain ⟨hlt, honly, _⟩ := find_eq_some_iff.mp hfind
  rw [length_table] at hlt
  have he : d.entries[s]? = some d.entries[s] := List.getElem?_eq_getElem hlt
  have hslot : d.table[s]? = some d.entries[s].slot := by
    rw [table_getElem?, he]; rfl
  refine ⟨d.entries[s], by rw [entryAt, he], he, ?_⟩
  have hlook := find_denote hd.wellFormed hclear
  simp only [hfind, hslot, Option.bind_eq_bind, Option.bind_some] at hlook
  cases hlive : d.entries[s].isLive with
  | true =>
      rw [BreadDictEntry.slot_of_isLive hlive] at hlook
      cases hden : denote d.table key <;> simp_all [Slot.pair?]
  | false =>
      have hnone : d.entries[s].slot.pair? = none := by
        have := d.entries[s].isLive_slot
        cases hx : d.entries[s].slot <;> simp_all [Slot.pair?]
      rw [hnone] at hlook
      cases hden : denote d.table key <;> simp_all

/-- **`bread_dict_get_safe`** reads the map, unless a tombstone hides the key. -/
theorem Shape.getSafe_spec {d : BreadDict} (hd : d.Shape) {key : BreadValue}
    (hkey : key.isPlainKey = true) (hclear : Unblocked home d.table key) :
    ∃ r, d.getSafe key = .ok r ∧ returnedPointer r = denote d.table key := by
  by_cases hk : d.keyMismatch key = true
  · exact ⟨.error (d.keyTypeError key), by rw [getSafe, if_pos hk],
      (hd.denote_of_keyMismatch hk).symm⟩
  by_cases hcap : d.capacity = 0
  · exact ⟨.ok none, by rw [getSafe, if_neg hk, if_pos hcap],
      (hd.denote_of_capacity hcap key).symm⟩
  rw [getSafe, if_neg hk, if_neg hcap, hd.findSlot_eq hkey]
  cases hfind : find home d.table key with
  | none =>
      have hlook := find_denote hd.wellFormed hclear
      rw [hfind] at hlook
      refine ⟨.ok none, rfl, ?_⟩
      cases hden : denote d.table key <;> simp_all [returnedPointer]
  | some s =>
      obtain ⟨e, he, _, hval⟩ := hd.lookup_at_find hclear hfind
      refine ⟨.ok (if e.isLive then some e.value else none), ?_, hval.symm⟩
      simp [bind, Except.bind, pure, Except.pure, he]

/-- **`bread_dict_contains_key`** tests membership in the map, unless a
tombstone hides the key. -/
theorem Shape.containsKey_spec {d : BreadDict} (hd : d.Shape) {key : BreadValue}
    (hkey : key.isPlainKey = true) (hclear : Unblocked home d.table key) :
    d.containsKey key = .ok (denote d.table key).isSome := by
  by_cases hk : d.keyMismatch key = true
  · rw [containsKey, if_pos hk, hd.denote_of_keyMismatch hk]
    rfl
  by_cases hcap : d.capacity = 0
  · rw [containsKey, if_neg hk, if_pos hcap, hd.denote_of_capacity hcap]
    rfl
  rw [containsKey, if_neg hk, if_neg hcap, hd.findSlot_eq hkey]
  cases hfind : find home d.table key with
  | none =>
      have hlook := find_denote hd.wellFormed hclear
      rw [hfind] at hlook
      cases hden : denote d.table key with
      | none => rfl
      | some v => simp [hden] at hlook
  | some s =>
      obtain ⟨e, he, _, hval⟩ := hd.lookup_at_find hclear hfind
      rw [hval]
      cases hlive : e.isLive <;>
        simp [bind, Except.bind, pure, Except.pure, he, hlive]

/-- A lookup returns, whatever it finds. -/
theorem Shape.getSafe_returns {d : BreadDict} (hd : d.Shape) {key : BreadValue}
    (hkey : key.isPlainKey = true) : ∃ r, d.getSafe key = .ok r := by
  rw [getSafe]
  split
  · exact ⟨_, rfl⟩
  split
  · exact ⟨_, rfl⟩
  rw [hd.findSlot_eq hkey]
  cases hfind : find home d.table key with
  | none => exact ⟨_, rfl⟩
  | some s =>
      obtain ⟨e, he⟩ := hd.entryAt_find hfind
      simp only [bind, Except.bind, he]
      exact ⟨_, rfl⟩

theorem Shape.containsKey_returns {d : BreadDict} (hd : d.Shape) {key : BreadValue}
    (hkey : key.isPlainKey = true) : ∃ r, d.containsKey key = .ok r := by
  rw [containsKey]
  split
  · exact ⟨_, rfl⟩
  split
  · exact ⟨_, rfl⟩
  rw [hd.findSlot_eq hkey]
  cases hfind : find home d.table key with
  | none => exact ⟨_, rfl⟩
  | some s =>
      obtain ⟨e, he⟩ := hd.entryAt_find hfind
      simp only [bind, Except.bind, he]
      exact ⟨_, rfl⟩

/-- **What `bread_dict_remove` does**: it leaves the dictionary alone, which for
an unblocked key means that the key is not there, or it turns the live slot of
the key into a tombstone. -/
theorem Shape.remove_cases {d : BreadDict} (hd : d.Shape) {key : BreadValue}
    (hkey : key.isPlainKey = true) :
    (∃ r, d.remove key = .ok (d, r) ∧ returnedValue r = .nil ∧
        (Unblocked home d.table key → denote d.table key = none)) ∨
      ∃ s v, d.table[s]? = some (.live key v) ∧
        d.remove key =
          .ok (d.setEntry s ⟨.nil, .nil, true, true⟩ (d.count - 1), .ok v) := by
  by_cases hk : d.keyMismatch key = true
  · exact Or.inl ⟨.error (d.keyTypeError key), by rw [remove, if_pos hk], rfl,
      fun _ => hd.denote_of_keyMismatch hk⟩
  by_cases hcap : d.capacity = 0
  · exact Or.inl ⟨.ok .nil, by rw [remove, if_neg hk, if_pos hcap], rfl,
      fun _ => hd.denote_of_capacity hcap key⟩
  rw [remove, if_neg hk, if_neg hcap, hd.findSlot_eq hkey]
  cases hfind : find home d.table key with
  | none =>
      refine Or.inl ⟨.ok .nil, rfl, rfl, fun hclear => ?_⟩
      have hlook := find_denote hd.wellFormed hclear
      rw [hfind] at hlook
      cases hden : denote d.table key <;> simp_all
  | some s =>
      obtain ⟨hlt, honly, _⟩ := find_eq_some_iff.mp hfind
      rw [length_table] at hlt
      have hes : d.entries[s]? = some d.entries[s] := List.getElem?_eq_getElem hlt
      cases hlive : d.entries[s].isLive with
      | false =>
          refine Or.inl ⟨.ok .nil, ?_, rfl, fun hclear => ?_⟩
          · simp [bind, Except.bind, pure, Except.pure, entryAt_eq hes, hlive]
          · obtain ⟨e, _, he, hval⟩ := hd.lookup_at_find hclear hfind
            rw [hes] at he
            rw [hval, ← Option.some.inj he, hlive]
            rfl
      | true =>
          have hslot : d.table[s]? =
              some (.live d.entries[s].key d.entries[s].value) := by
            rw [table_getElem?, hes, Option.map_some,
              BreadDictEntry.slot_of_isLive hlive]
          rw [honly _ _ hslot] at hslot
          refine Or.inr ⟨s, _, hslot, ?_⟩
          simp [bind, Except.bind, pure, Except.pure, entryAt_eq hes, hlive,
            BreadDict.setEntry]

/-- Turning the live slot of a key into a tombstone. -/
theorem Inv.tombstone_spec {d : BreadDict} (hd : d.Inv) {s : ℕ}
    {key v : BreadValue} (hslot : d.table[s]? = some (.live key v)) :
    (d.setEntry s ⟨.nil, .nil, true, true⟩ (d.count - 1)).Inv ∧
      denote (d.setEntry s ⟨.nil, .nil, true, true⟩ (d.count - 1)).table =
        Function.update (denote d.table) key none := by
  obtain ⟨hwf, hdenote⟩ := erase_live hd.wellFormed hslot
  have hone : 0 < liveCount d.table :=
    List.countP_pos_iff.mpr ⟨_, List.mem_iff_getElem?.mpr ⟨s, hslot⟩, rfl⟩
  refine ⟨hd.setEntry (by simp) (by simpa using hwf) ?_, ?_⟩
  · have hcount := hd.count_eq
    rw [BreadDictEntry.slot_deleted, liveCount_erase hslot]
    omega
  · rw [table_setEntry, BreadDictEntry.slot_deleted]
    exact hdenote

/-- **`bread_dict_remove`** removes the key from the map and returns its value,
unless a tombstone hides the key. -/
theorem Inv.remove_spec {d : BreadDict} (hd : d.Inv) {key : BreadValue}
    (hkey : key.isPlainKey = true) (hclear : Unblocked home d.table key) :
    ∃ d' r, d.remove key = .ok (d', r) ∧ d'.Inv ∧ d'.keyType = d.keyType ∧
      d'.valueType = d.valueType ∧
      returnedValue r = (denote d.table key).getD .nil ∧
      denote d'.table = Function.update (denote d.table) key none := by
  rcases hd.remove_cases hkey with ⟨r, hrem, hret, hnone⟩ | ⟨s, v, hslot, hrem⟩
  · refine ⟨d, r, hrem, hd, rfl, rfl, ?_, ?_⟩
    · rw [hnone hclear]
      exact hret
    · rw [← hnone hclear, Function.update_eq_self]
  · obtain ⟨hinv, hden⟩ := hd.tombstone_spec hslot
    refine ⟨_, _, hrem, hinv, rfl, rfl, ?_, hden⟩
    rw [(denote_eq_some_iff hd.wellFormed.distinct).mpr ⟨s, hslot⟩]
    rfl

/-- **`bread_dict_clear`** empties the map and removes the tombstones. -/
theorem Inv.clear_spec {d : BreadDict} (hd : d.Inv) :
    d.clear.Inv ∧ d.clear.table = List.replicate d.entries.length .empty := by
  have htable : d.clear.table = List.replicate d.entries.length .empty := by
    rw [List.eq_replicate_iff]
    refine ⟨by simp [clear, table], ?_⟩
    intro x hx
    simp only [clear, table, List.map_map, List.mem_map, Function.comp_apply] at hx
    obtain ⟨e, _, rfl⟩ := hx
    rw [clearEntry]
    split <;> rfl
  have hnot : ∀ {s : ℕ} {k v : BreadValue},
      d.clear.table[s]? ≠ some (.live k v) := by
    intro s k v hs
    rw [htable] at hs
    simp [List.getElem?_replicate] at hs
  refine ⟨?_, htable⟩
  exact
    { sized := by simpa [clear] using hd.sized
      bounded := hd.bounded
      plain := fun hs => absurd hs hnot
      keyTyped := fun hs => absurd hs hnot
      wellFormed := by rw [htable]; exact wellFormed_replicate _ _
      count_eq := by
        rw [htable]
        simp [clear, liveCount, List.countP_replicate] }

end BreadDict
end BreadLang
