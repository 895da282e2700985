import BreadLang.Core.DictRun

/-!
# Literals, and what a dictionary lists

`bread_dict_from_literal` sizes a table for its entries and inserts them with a
loop of its own.  It denotes the map that inserting the entries one by one
would give (`fromLiteral_spec`), but it counts every entry, also one whose key
is in the table already: `repeated_key_is_counted_twice`.

`bread_dict_keys` and `bread_dict_values` list the live entries in slot order
(`collect_spec`), provided the values have the dictionary's value type.  They
need not: a dictionary that holds nil values has the value type nil, which the
type check of `bread_dict_set_safe` takes for "any".
-/

namespace BreadLang

open OpenAddressing

namespace BreadDict

/-! ### Listing the live entries -/

/-- Appending one field of each live entry.  The induction is on the slots
left; the array holds the fields of the live entries before slot `i`. -/
private theorem collectLoop_eq (d : BreadDict) (field : BreadDictEntry → BreadValue)
    (T : VarType) (hT : ∀ e ∈ liveEntries d.entries, (field e).type = T) (n : ℕ) :
    ∀ i a, i + n = d.entries.length → a.Inv →
      (a.elementType = .typeNil ∨ a.elementType = T) →
      a.items.length + (liveEntries (d.entries.drop i)).length ≤ BreadArray.maxLength →
      ∃ a', d.collectLoop field n i a = .ok (some a') ∧ a'.Inv ∧
        a'.items = a.items ++ (liveEntries (d.entries.drop i)).map field := by
  induction n with
  | zero =>
      intro i a hi ha _ _
      refine ⟨a, rfl, ha, ?_⟩
      rw [List.drop_eq_nil_of_le (by omega)]
      simp [liveEntries]
  | succ n ih =>
      intro i a hi ha htype hroom
      have hlt : i < d.entries.length := by omega
      have hentry := entryAt_eq (d := d) (List.getElem?_eq_getElem hlt)
      rw [List.drop_eq_getElem_cons hlt] at hroom ⊢
      cases hlive : d.entries[i].isLive with
      | false =>
          rw [liveEntries_cons_of_not_isLive hlive] at hroom ⊢
          obtain ⟨a', hrun, hrest⟩ := ih (i + 1) a (by omega) ha htype hroom
          refine ⟨a', ?_, hrest⟩
          rw [collectLoop, hentry]
          simpa [bind, Except.bind, hlive] using hrun
      | true =>
          rw [liveEntries_cons_of_isLive hlive] at hroom ⊢
          simp only [List.length_cons] at hroom
          have hfield : (field d.entries[i]).type = T :=
            hT _ (List.mem_filter.mpr ⟨List.getElem_mem hlt, hlive⟩)
          obtain ⟨a₁, happend, hinv₁, hitems₁, htype₁⟩ :=
            ha.append_spec (v := field d.entries[i]) (by rw [hfield]; exact htype)
              (by omega)
          have htype₁' : a₁.elementType = .typeNil ∨ a₁.elementType = T := by
            rcases htype₁ with h | h
            · rw [h]
              exact htype
            · exact Or.inr (h.trans hfield)
          obtain ⟨a', hrun, hinv', hitems'⟩ := ih (i + 1) a₁ (by omega) hinv₁ htype₁'
            (by
              rw [hitems₁, List.length_append, List.length_singleton]
              omega)
          refine ⟨a', ?_, hinv', ?_⟩
          · rw [collectLoop, hentry]
            simp only [bind, Except.bind, hlive, if_true, happend]
            exact hrun
          · rw [hitems', hitems₁, List.map_cons, List.append_assoc,
              List.singleton_append]

/-- **Listing one field of the live entries**, in slot order. -/
theorem Inv.collect_spec {d : BreadDict} (hd : d.Inv)
    (field : BreadDictEntry → BreadValue) (T : VarType)
    (hT : ∀ e ∈ liveEntries d.entries, (field e).type = T)
    (hroom : d.count ≤ BreadArray.maxLength) :
    ∃ a, d.collectLoop field d.capacity.toNat 0 (BreadArray.newTyped T) =
        .ok (some a) ∧
      a.items = (liveEntries d.entries).map field ∧ a.count = d.count := by
  have hcount := hd.count_eq
  have hlen := length_liveEntries d
  obtain ⟨a, hrun, hinv, hitems⟩ := collectLoop_eq d field T hT d.entries.length 0
    (BreadArray.newTyped T) (by omega) (BreadArray.newTyped_inv T) (Or.inr rfl)
    (by
      simp only [BreadArray.newTyped, List.length_nil, List.drop_zero, hlen]
      omega)
  rw [List.drop_zero] at hitems
  refine ⟨a, by rw [hd.sized]; exact hrun, by rw [hitems]; rfl, ?_⟩
  rw [hinv.count_eq, hitems, hcount, ← hlen]
  simp [BreadArray.newTyped]

/-! ### Values of the dictionary's type -/

/-- Every stored value has the value type of the dictionary. -/
def ValueTyped (d : BreadDict) : Prop :=
  ∀ k v, denote d.table k = some v → v.type = d.valueType

/-- What a dictionary promises about its own bookkeeping: the count is the
number of live slots, their keys are distinct, and both lists have one element
for each of them, in slot order. -/
structure Consistent (d : BreadDict) : Prop where
  count_eq : d.count = (liveEntries d.entries).length
  distinct : d.LiveKeysDistinct
  lists : d.count ≤ BreadArray.maxLength →
    ∃ ks vs, d.keys = .ok (some ks) ∧ d.values = .ok (some vs) ∧
      ks.items = (liveEntries d.entries).map BreadDictEntry.key ∧
      vs.items = (liveEntries d.entries).map BreadDictEntry.value ∧
      ks.count = d.count ∧ vs.count = d.count

theorem Inv.consistent {d : BreadDict} (hd : d.Inv) (hv : d.ValueTyped) :
    d.Consistent where
  count_eq := by rw [hd.count_eq, length_liveEntries]
  distinct := hd.liveKeysDistinct
  lists := by
    intro hroom
    have hkeys : ∀ e ∈ liveEntries d.entries, e.key.type = d.keyType := by
      intro e he
      obtain ⟨s, hs⟩ := slot_of_mem_liveEntries he
      exact hd.keyTyped hs
    have hvalues : ∀ e ∈ liveEntries d.entries, e.value.type = d.valueType := by
      intro e he
      exact hv e.key e.value
        ((denote_eq_some_iff hd.wellFormed.distinct).mpr (slot_of_mem_liveEntries he))
    obtain ⟨ks, hks, hkitems, hkcount⟩ :=
      hd.collect_spec BreadDictEntry.key d.keyType hkeys hroom
    obtain ⟨vs, hvs, hvitems, hvcount⟩ :=
      hd.collect_spec BreadDictEntry.value d.valueType hvalues hroom
    exact ⟨ks, vs, hks, hvs, hkitems, hvitems, hkcount, hvcount⟩

/-- A set must not put a value that is not nil into a dictionary that holds
nil values. -/
def NoMixing (d : BreadDict) (value : BreadValue) : Prop :=
  d.valueType = .typeNil → d.count = 0 ∨ value.type = .typeNil

instance (d : BreadDict) (value : BreadValue) : Decidable (d.NoMixing value) :=
  inferInstanceAs (Decidable (_ → _))

/-- Storing a pair keeps the values typed. -/
theorem SetResult.valueTyped {d d' : BreadDict} {key value : BreadValue}
    (h : SetResult d key value d') (hd : d.Inv) (hv : d.ValueTyped)
    (hvm : d.valueMismatch value = false) (hmix : d.NoMixing value) :
    d'.ValueTyped := by
  -- the value stored has the type the dictionary ends up with
  have hnew : value.type = d'.valueType := by
    rw [h.valueType, adoptTypes_valueType]
    split
    · rfl
    · next hne =>
        rw [valueMismatch, Bool.and_eq_false_iff] at hvm
        simp only [bne_eq_false_iff_eq] at hvm
        rcases hvm with hnil | heq
        · rcases hmix hnil with hzero | hvnil
          · exact absurd ⟨hnil, hzero⟩ hne
          · rw [hvnil, hnil]
        · exact heq.symm
  intro k v hk
  rw [h.denote_eq] at hk
  by_cases heq : k = key
  · subst heq
    rw [Function.update_self] at hk
    rw [← Option.some.inj hk]
    exact hnew
  · rw [Function.update_of_ne heq] at hk
    rw [hv k v hk, h.valueType, adoptTypes_valueType]
    split
    · next hzero =>
        obtain ⟨s, hs⟩ := exists_live_of_denote hk
        exact absurd hs (hd.not_live_of_count hzero.2)
    · rfl

/-! ### The insertion loop of a literal -/

/-- The map after storing a list of pairs one by one: the last of equal keys
wins. -/
def storeAll (m : DictMap) (ps : List (BreadValue × BreadValue)) : DictMap :=
  ps.foldl (fun m p => Function.update m p.1 (some p.2)) m

@[simp] theorem storeAll_cons (m : DictMap) (p : BreadValue × BreadValue)
    (ps : List (BreadValue × BreadValue)) :
    storeAll m (p :: ps) = storeAll (Function.update m p.1 (some p.2)) ps := rfl

/-- A stored value is one of the list, or was there before. -/
theorem storeAll_eq_some {ps : List (BreadValue × BreadValue)} :
    ∀ {m : DictMap} {k v : BreadValue}, storeAll m ps k = some v →
      (∃ p ∈ ps, p.2 = v) ∨ m k = some v := by
  induction ps with
  | nil =>
      intro m k v h
      exact Or.inr h
  | cons p ps ih =>
      intro m k v h
      rw [storeAll_cons] at h
      rcases ih h with ⟨q, hq, hv⟩ | hm
      · exact Or.inl ⟨q, List.mem_cons_of_mem _ hq, hv⟩
      · by_cases hk : k = p.1
        · subst hk
          rw [Function.update_self] at hm
          exact Or.inl ⟨p, by simp, Option.some.inj hm⟩
        · rw [Function.update_of_ne hk] at hm
          exact Or.inr hm

/-- **The insertion loop**, in a table without tombstones that has room for all
entries.  It stores the pairs one by one; it counts all of them, although only
distinct new keys take a slot each. -/
private theorem literalLoop_spec (ps : List (BreadValue × BreadValue)) :
    ∀ d : BreadDict, d.Shape → NoTombstone d.table →
      (∀ p ∈ ps, p.1.isPlainKey = true ∧ p.1.type = d.keyType) →
      liveCount d.table + ps.length ≤ d.entries.length →
      ∃ d', literalLoop ps d = .ok d' ∧ d'.Shape ∧ NoTombstone d'.table ∧
        SameFrame d d' ∧ d'.count = d.count + ps.length ∧
        denote d'.table = storeAll (denote d.table) ps ∧
        ((ps.map Prod.fst).Nodup → (∀ p ∈ ps, denote d.table p.1 = none) →
          liveCount d'.table = liveCount d.table + ps.length) := by
  induction ps with
  | nil =>
      intro d hd hnt _ _
      exact ⟨d, rfl, hd, hnt, ⟨rfl, rfl, rfl⟩, by simp, rfl, fun _ _ => by simp⟩
  | cons p ps ih =>
      intro d hd hnt hplain hroom
      obtain ⟨hkey, htype⟩ := hplain p (by simp)
      simp only [List.length_cons] at hroom
      obtain ⟨s, hfind⟩ := find_isSome home p.1
        (by rw [length_table]; omega : liveCount d.table < d.table.length)
      obtain ⟨hlt, honly, _⟩ := find_eq_some_iff.mp hfind
      obtain ⟨hwf, hden⟩ :=
        place_find hd.wellFormed (unblocked_of_noTombstone hnt _) p.2 hfind
      have hcount := liveCount_place p.1 p.2 (List.getElem?_eq_getElem hlt)
      set d₁ := d.setEntry s ⟨p.1, p.2, true, false⟩ (d.count + 1) with hd₁
      have htable : d₁.table = d.table.set s (.live p.1 p.2) := by
        rw [hd₁, table_setEntry, BreadDictEntry.slot_stored]
      have hshape : d₁.Shape := by
        refine hd.setEntry _ ?_ hwf
        intro k v hkv
        simp only [BreadDictEntry.slot_stored, Slot.live.injEq] at hkv
        exact hkv.1 ▸ ⟨hkey, htype⟩
      have hlength : d₁.entries.length = d.entries.length := by
        simp [hd₁, BreadDict.setEntry]
      obtain ⟨d', hrun, hshape', hnt', hframe, hcount', hmap, hlive⟩ := ih d₁ hshape
        (by rw [htable]; exact noTombstone_place hnt _ _ _)
        (fun q hq => hplain q (List.mem_cons_of_mem _ hq))
        (by
          rw [htable, hcount, hlength]
          split <;> omega)
      refine ⟨d', ?_, hshape', hnt',
        ⟨hframe.capacity, hframe.keyType, hframe.valueType⟩, ?_, ?_, ?_⟩
      · rw [literalLoop, hd.findSlot_eq hkey, hfind]
        exact hrun
      · rw [hcount', hd₁, BreadDict.setEntry, List.length_cons]
        push_cast
        omega
      · rw [hmap, htable, hden]
        rfl
      · intro hnodup hnew
        obtain ⟨hnotMem, hnodup'⟩ := List.nodup_cons.mp hnodup
        -- the slot found was free, since the key was not in the table
        have hfree : d.table[s].isLive = false := by
          by_contra hx
          obtain ⟨k, v, hkv⟩ := Slot.isLive_iff.mp (by simpa using hx)
          have hs : d.table[s]? = some (.live k v) := by
            rw [List.getElem?_eq_getElem hlt, hkv]
          rw [honly k v hs] at hs
          exact denote_eq_none_iff.mp (hnew p (by simp)) s v hs
        rw [hlive hnodup' ?_, htable, hcount, hfree, List.length_cons]
        · simp only [Bool.false_eq_true, if_false]
          omega
        · intro q hq
          have hne : q.1 ≠ p.1 := by
            intro heq
            exact hnotMem (List.mem_map.mpr ⟨q, hq, heq⟩)
          rw [htable, hden, Function.update_of_ne hne]
          exact hnew q (List.mem_cons_of_mem _ hq)

/-- A literal without a mismatch has keys and values of one type each. -/
private theorem literalMismatch_eq_none {keyType valueType : VarType}
    {ps : List (BreadValue × BreadValue)}
    (h : literalMismatch keyType valueType ps = none) :
    ∀ p ∈ ps, p.1.type = keyType ∧ p.2.type = valueType := by
  induction ps with
  | nil =>
      intro p hp
      exact absurd hp (List.not_mem_nil)
  | cons q ps ih =>
      rw [literalMismatch] at h
      split at h
      · exact absurd h (by simp)
      split at h
      · exact absurd h (by simp)
      next hk hv =>
        intro p hp
        rcases List.mem_cons.mp hp with rfl | hp
        · exact ⟨by simpa using hk, by simpa using hv⟩
        · exact ih h p hp

/-- The capacity of a literal's table has room for all its entries. -/
private theorem literalCapacity_spec {n : ℕ} {c : ℤ}
    (h : literalCapacity n = .ok c) : (n : ℤ) ≤ c ∧ 0 < c ∧ c ≤ intMax := by
  have hmax : (8 : ℤ) ≤ intMax := by decide
  rw [literalCapacity] at h
  split at h
  · rw [checkedInt] at h
    split at h
    · next hfit =>
        simp only [bind, Except.bind, pure, Except.pure, Except.ok.injEq] at h
        rw [← h]
        split <;> omega
    · simp [bind, Except.bind] at h
  · simp only [Except.ok.injEq] at h
    omega

theorem newWithCapacity_table (c : ℤ) (kt vt : VarType) :
    (newWithCapacity c kt vt).table = List.replicate c.toNat .empty := by
  simp [newWithCapacity, table]

/-- What a literal evaluates to, when it evaluates to a dictionary. -/
structure LiteralResult (ps : List (BreadValue × BreadValue)) (d : BreadDict) :
    Prop where
  shape : d.Shape
  noTombstone : NoTombstone d.table
  count_eq : d.count = ps.length
  denote_eq : denote d.table = storeAll (fun _ => none) ps
  liveCount_eq : (ps.map Prod.fst).Nodup → liveCount d.table = ps.length
  valueTyped : d.ValueTyped

private theorem newWithCapacity_inv {c : ℤ} (h₀ : 0 ≤ c) (hmax : c ≤ intMax)
    (kt vt : VarType) : (newWithCapacity c kt vt).Inv :=
  DictConstructor.build_inv (c := .newWithCapacity c kt vt) ⟨h₀, hmax⟩

/-- The empty literal. -/
private theorem emptyLiteral_result :
    LiteralResult [] (newWithCapacity 8 .typeNil .typeNil) := by
  have hinv := newWithCapacity_inv (c := 8) (by omega) (by rw [intMax]; omega)
    .typeNil .typeNil
  have hden : ∀ k, denote (newWithCapacity 8 .typeNil .typeNil).table k = none := by
    intro k
    rw [newWithCapacity_table, denote_replicate]
  exact
    { shape := hinv.toShape
      noTombstone := by
        rw [newWithCapacity_table]
        exact noTombstone_replicate _
      count_eq := rfl
      denote_eq := funext hden
      liveCount_eq := fun _ => hinv.liveCount_eq_zero rfl
      valueTyped := by
        intro k v hk
        rw [hden k] at hk
        exact absurd hk (by simp) }

/-- A literal with entries, in a table of capacity `c`. -/
private theorem literalLoop_result {d : BreadValue × BreadValue}
    (ps : List (BreadValue × BreadValue))
    (hplain : ∀ p ∈ d :: ps, p.1.isPlainKey = true)
    (hkeys : ∀ p ∈ ps, p.1.type = d.1.type)
    (hvalues : ∀ p ∈ ps, p.2.type = d.2.type) {c : ℤ}
    (hc : ((ps.length + 1 : ℕ) : ℤ) ≤ c ∧ 0 < c ∧ c ≤ intMax) :
    ∃ d', literalLoop (d :: ps) (newWithCapacity c d.1.type d.2.type) = .ok d' ∧
      LiteralResult (d :: ps) d' := by
  obtain ⟨hroom, hpos, hmax⟩ := hc
  have hinv := newWithCapacity_inv (c := c) (by omega) hmax d.1.type d.2.type
  have htable := newWithCapacity_table c d.1.type d.2.type
  have hzero : liveCount (newWithCapacity c d.1.type d.2.type).table = 0 :=
    hinv.liveCount_eq_zero rfl
  have hempty : denote (newWithCapacity c d.1.type d.2.type).table =
      fun _ => none := by
    funext k
    rw [htable, denote_replicate]
  have hlength : (newWithCapacity c d.1.type d.2.type).entries.length = c.toNat := by
    simp [newWithCapacity]
  obtain ⟨d', hrun, hshape, hnt, hframe, hcount, hmap, hlive⟩ :=
    literalLoop_spec (d :: ps) (newWithCapacity c d.1.type d.2.type)
      hinv.toShape (by rw [htable]; exact noTombstone_replicate _)
      (by
        intro q hq
        refine ⟨hplain q hq, ?_⟩
        rcases List.mem_cons.mp hq with rfl | hq
        · rfl
        · exact hkeys q hq)
      (by
        rw [hzero, hlength, List.length_cons]
        omega)
  rw [hempty] at hmap
  refine ⟨d', hrun, hshape, hnt, ?_, hmap, ?_, ?_⟩
  · rw [hcount]
    exact Int.zero_add _
  · intro hnodup
    rw [hlive hnodup (fun q _ => by rw [hempty]), hzero, Nat.zero_add]
  · intro k v hk
    have hvt : d'.valueType = d.2.type := hframe.valueType
    rw [hmap] at hk
    rcases storeAll_eq_some hk with ⟨q, hq, rfl⟩ | hnone
    · rw [hvt]
      rcases List.mem_cons.mp hq with rfl | hq
      · rfl
      · exact hvalues q hq
    · exact absurd hnone (by simp)

/-- **`bread_dict_from_literal`** denotes the map that storing its entries one
by one gives.  Its count is right when no key is repeated. -/
theorem fromLiteral_spec {ps : List (BreadValue × BreadValue)} {d : BreadDict}
    (hplain : ∀ p ∈ ps, p.1.isPlainKey = true)
    (h : fromLiteral ps = .ok (.ok d)) : LiteralResult ps d := by
  cases ps with
  | nil =>
      have hnil : fromLiteral [] = .ok (.ok (newWithCapacity 8 .typeNil .typeNil)) :=
        rfl
      rw [hnil] at h
      simp only [Except.ok.injEq] at h
      exact h ▸ emptyLiteral_result
  | cons p ps =>
      rw [fromLiteral] at h
      cases hmis : literalMismatch p.1.type p.2.type ps with
      | some e => simp [hmis] at h
      | none =>
          simp only [hmis, bind_eq_ok] at h
          obtain ⟨c, hcap, d', hrun, hret⟩ := h
          have htypes := literalMismatch_eq_none hmis
          obtain ⟨d'', hrun', hres⟩ := literalLoop_result ps hplain
            (fun q hq => (htypes q hq).1) (fun q hq => (htypes q hq).2)
            (literalCapacity_spec hcap)
          rw [hrun', Except.ok.injEq] at hrun
          simp only [pure, Except.pure, Except.ok.injEq] at hret
          rw [← hret, ← hrun]
          exact hres

/-! ### Storing the entries one by one -/

/-- As many sets as this cannot make the capacity overflow an `int`. -/
def maxStored : ℕ := 3 * 2 ^ 28

/-- With few enough entries the next growth is possible. -/
theorem growthFits_of_count {d : BreadDict} (h : d.count + 1 ≤ maxStored) :
    d.GrowthFits := by
  intro hgrow
  have hmax : intMax = 2147483647 := by decide
  rw [maxStored] at h
  rw [needsGrowth, Bool.or_eq_true, beq_iff_eq] at hgrow
  rcases hgrow with hzero | hload
  · omega
  · rw [loadExceeded] at hload
    split at hload
    · simp only [decide_eq_true_eq] at hload
      omega
    · omega

/-- Storing a list of pairs of accepted types with `bread_dict_set_safe`. -/
private theorem storeAll_refines {keyType valueType : VarType}
    (ps : List (PlainKey × BreadValue)) :
    ∀ (d : BreadDict) (m : DictMap), Refines .new keyType valueType d m →
      NoTombstone d.table →
      (∀ p ∈ ps, p.1.1.type = keyType ∧ p.2.type = valueType) →
      d.count + ps.length ≤ maxStored →
      ∃ d' rs, Run.run DictOp.step d (ps.map fun p => .set p.1 p.2) = .ok (d', rs) ∧
        d'.Inv ∧ NoTombstone d'.table ∧
        denote d'.table = storeAll m (ps.map fun p => (p.1.1, p.2)) := by
  induction ps with
  | nil =>
      intro d m h hnt _ _
      exact ⟨d, [], rfl, h.inv, hnt, h.denote_eq⟩
  | cons p ps ih =>
      intro d m h hnt htypes hroom
      simp only [List.length_cons] at hroom
      push_cast at hroom
      obtain ⟨hk, hv⟩ := htypes p (by simp)
      have hacc : DictConstructor.new.accepts keyType valueType = true := rfl
      obtain ⟨hkm, hvm⟩ := (h.mismatch_iff hk hv).mpr hacc
      obtain ⟨d₁, hset, hres⟩ := h.inv.setSafe_spec p.1.2 hkm hvm
        ⟨growthFits_of_count (by omega), fun _ => unblocked_of_noTombstone hnt _⟩
      have hle := hres.count_le
      obtain ⟨d', rs, hrun, hinv, hnt', hden⟩ := ih d₁ _ (h.set hacc hk hv hres)
        (hres.noTombstone hnt) (fun q hq => htypes q (List.mem_cons_of_mem _ hq))
        (by omega)
      have hstep : DictOp.step d (.set p.1 p.2) = .ok (d₁, .stored true) := by
        rw [DictOp.step, hset]
        rfl
      refine ⟨d', .stored true :: rs, ?_, hinv, hnt', hden⟩
      rw [List.map_cons, Run.run, hstep]
      simp only [hrun]

/-- The two type checks of a literal without a mismatch. -/
private theorem fromLiteral_types {p : BreadValue × BreadValue}
    {ps : List (BreadValue × BreadValue)} {d : BreadDict}
    (h : fromLiteral (p :: ps) = .ok (.ok d)) :
    ∀ q ∈ p :: ps, q.1.type = p.1.type ∧ q.2.type = p.2.type := by
  rw [fromLiteral] at h
  cases hmis : literalMismatch p.1.type p.2.type ps with
  | some e => simp [hmis] at h
  | none =>
      intro q hq
      rcases List.mem_cons.mp hq with rfl | hq
      · exact ⟨rfl, rfl⟩
      · exact literalMismatch_eq_none hmis q hq

end BreadDict

open BreadDict

/-! ### Every way to make a dictionary -/

/-- The entries of a literal. -/
abbrev LiteralEntries := List (PlainKey × BreadValue)

/-- The entries as the runtime gets them. -/
def LiteralEntries.pairs (entries : LiteralEntries) : List (BreadValue × BreadValue) :=
  entries.map fun p => (p.1.1, p.2)

/-- Where a dictionary comes from. -/
inductive DictOrigin where
  | empty (c : DictConstructor)
  | literal (entries : LiteralEntries)

/-- The dictionary it gives, unless the entries of a literal do not fit. -/
def DictOrigin.build : DictOrigin → Exec (Except BreadError BreadDict)
  | .empty c => .ok (.ok c.build)
  | .literal entries => fromLiteral entries.pairs

/-- The capacity is not negative, and no key of a literal is repeated. -/
def DictOrigin.Clear : DictOrigin → Prop
  | .empty c => c.Sized
  | .literal entries => (entries.pairs.map Prod.fst).Nodup

/-- What keeps a dictionary consistent: a pair it accepts is stored in a state
that is clear for it, and does not mix nil with other values. -/
def DictOp.Keeps (d : BreadDict) : DictOp → Prop
  | .set key value =>
      d.keyMismatch key = false → d.valueMismatch value = false →
        d.SetClear key ∧ d.NoMixing value
  | _ => True

instance (d : BreadDict) (op : DictOp) : Decidable (op.Keeps d) :=
  match op with
  | .set key value =>
      inferInstanceAs (Decidable (d.keyMismatch key = false →
        d.valueMismatch value = false → d.SetClear key ∧ d.NoMixing value))
  | .remove _ | .clear | .get _ | .contains _ => isTrue trivial

/-- **One call** keeps the invariant, and the values typed. -/
theorem DictOp.step_keeps {d : BreadDict} (hd : d.Inv) (hv : d.ValueTyped)
    (op : DictOp) (hkeeps : op.Keeps d) :
    ∃ d' r, op.step d = .ok (d', r) ∧ d'.Inv ∧ d'.ValueTyped := by
  cases op with
  | set key value =>
      by_cases hmis : d.keyMismatch key = true ∨ d.valueMismatch value = true
      · obtain ⟨e, hset⟩ := setSafe_of_mismatch hmis
        refine ⟨d, .stored false, ?_, hd, hv⟩
        rw [DictOp.step, hset]
        rfl
      · push Not at hmis
        have hkm : d.keyMismatch key = false := by simpa using hmis.1
        have hvm : d.valueMismatch value = false := by simpa using hmis.2
        obtain ⟨hclear, hmix⟩ := hkeeps hkm hvm
        obtain ⟨d', hset, hres⟩ := hd.setSafe_spec key.2 hkm hvm hclear
        refine ⟨d', .stored true, ?_, hres.inv, hres.valueTyped hd hv hvm hmix⟩
        rw [DictOp.step, hset]
        rfl
  | remove key =>
      rcases hd.remove_cases key.2 with ⟨r, hrem, _⟩ | ⟨s, v, hslot, hrem⟩
      · refine ⟨d, .removed (returnedValue r), ?_, hd, hv⟩
        rw [DictOp.step, hrem]
        rfl
      · obtain ⟨hinv, hden⟩ := hd.tombstone_spec hslot
        refine ⟨_, .removed v, by rw [DictOp.step, hrem]; rfl, hinv, ?_⟩
        intro k w hk
        rw [hden] at hk
        by_cases heq : k = key
        · subst heq
          simp at hk
        · rw [Function.update_of_ne heq] at hk
          exact hv k w hk
  | clear =>
      obtain ⟨hinv, htable⟩ := hd.clear_spec
      refine ⟨d.clear, .cleared, rfl, hinv, ?_⟩
      intro k w hk
      rw [htable, denote_replicate] at hk
      exact absurd hk (by simp)
  | get key =>
      obtain ⟨r, hget⟩ := hd.getSafe_returns key.2
      refine ⟨d, .found (returnedPointer r), ?_, hd, hv⟩
      rw [DictOp.step, hget]
      rfl
  | contains key =>
      obtain ⟨b, hcontains⟩ := hd.containsKey_returns key.2
      refine ⟨d, .present b, ?_, hd, hv⟩
      rw [DictOp.step, hcontains]
      rfl

theorem DictOrigin.literal_plain (entries : LiteralEntries) :
    ∀ p ∈ entries.pairs, p.1.isPlainKey = true := by
  intro p hp
  obtain ⟨q, _, rfl⟩ := List.mem_map.mp hp
  exact q.1.2

/-- A dictionary fresh from a constructor or a literal satisfies the
invariant. -/
theorem DictOrigin.build_inv {o : DictOrigin} {d : BreadDict}
    (ho : o.build = .ok (.ok d)) (hclear : o.Clear) : d.Inv ∧ d.ValueTyped := by
  cases o with
  | empty c =>
      have hd : c.build = d := by simpa [DictOrigin.build] using ho
      rw [← hd]
      refine ⟨DictConstructor.build_inv hclear, ?_⟩
      intro k v hk
      rw [c.build_denote] at hk
      exact absurd hk (by simp)
  | literal entries =>
      have hres := fromLiteral_spec (DictOrigin.literal_plain entries) ho
      refine ⟨⟨hres.shape, ?_⟩, hres.valueTyped⟩
      rw [hres.count_eq, hres.liveCount_eq hclear]

/-- The lookup of a key, as the pointer that `bread_dict_get_safe` returns. -/
def BreadDict.lookup (d : BreadDict) (key : PlainKey) : Exec (Option BreadValue) :=
  (d.getSafe key).map returnedPointer

theorem BreadDict.Shape.lookup_eq {d : BreadDict} (hd : d.Shape)
    (hnt : NoTombstone d.table) (key : PlainKey) :
    d.lookup key = .ok (denote d.table key) := by
  obtain ⟨r, hget, hret⟩ :=
    hd.getSafe_spec key.2 (unblocked_of_noTombstone hnt key.1)
  rw [BreadDict.lookup, hget, Except.map, hret]

/-- **A dictionary stays consistent** in every run of clear calls from a clear
origin.  A literal, with repeated keys or without, is looked up like the
dictionary that its entries stored one by one give. -/
theorem dict_stays_consistent (o : DictOrigin) (d : BreadDict)
    (ho : o.build = .ok (.ok d)) :
    (∀ ops, o.Clear → Run.Guarded DictOp.step (fun d op => op.Keeps d) d ops →
      ∃ d' rs, Run.run DictOp.step d ops = .ok (d', rs) ∧ d'.Consistent) ∧
    ∀ entries, o = .literal entries → entries.length ≤ maxStored →
      ∃ d' rs, Run.run DictOp.step BreadDict.new
          (entries.map fun p => .set p.1 p.2) = .ok (d', rs) ∧
        ∀ key : PlainKey,
          d.lookup key = .ok (storeAll (fun _ => none) entries.pairs key) ∧
          d'.lookup key = .ok (storeAll (fun _ => none) entries.pairs key) := by
  constructor
  · intro ops hclear hkeeps
    obtain ⟨d', rs, hrun, hinv, hv⟩ := Run.run_invariant
      (fun d => d.Inv ∧ d.ValueTyped) ops
      (fun d op _ h hk => DictOp.step_keeps h.1 h.2 op hk) d
      (DictOrigin.build_inv ho hclear) hkeeps
    exact ⟨d', rs, hrun, hinv.consistent hv⟩
  · rintro entries rfl hroom
    have hres := fromLiteral_spec (DictOrigin.literal_plain entries) ho
    -- all entries have the types of the first
    obtain ⟨keyType, valueType, htypes⟩ : ∃ keyType valueType, ∀ p ∈ entries,
        p.1.1.type = keyType ∧ p.2.type = valueType := by
      cases entries with
      | nil => exact ⟨.typeNil, .typeNil, fun p hp => absurd hp List.not_mem_nil⟩
      | cons q entries =>
          refine ⟨q.1.1.type, q.2.type, fun p hp => ?_⟩
          have hlit : fromLiteral ((q.1.1, q.2) :: LiteralEntries.pairs entries) =
              .ok (.ok d) := ho
          have hmem : (p.1.1, p.2) ∈ LiteralEntries.pairs (q :: entries) :=
            List.mem_map.mpr ⟨p, hp, rfl⟩
          exact fromLiteral_types hlit _ hmem
    obtain ⟨d', rs, hrun, hinv, hnt, hden⟩ := storeAll_refines entries BreadDict.new
      (fun _ => none)
      (⟨DictConstructor.build_inv (c := .new) trivial,
        funext (DictConstructor.build_denote .new), Or.inl rfl, Or.inl rfl⟩ :
        Refines .new keyType valueType BreadDict.new (fun _ => none))
      (by
        intro s hs
        exact absurd hs (by simp [BreadDict.new, table])) htypes
      (by
        simp only [BreadDict.new]
        omega)
    refine ⟨d', rs, hrun, fun key => ⟨?_, ?_⟩⟩
    · rw [hres.shape.lookup_eq hres.noTombstone, hres.denote_eq]
    · rw [hinv.lookup_eq hnt, hden]
      rfl

/-- A literal of two entries, and a run on it that ends with one of them
removed and another pair stored. -/
theorem dict_stays_consistent_applies :
    ∃ d, (DictOrigin.literal [(intKey 0, .int 10), (intKey 1, .int 11)]).build =
        .ok (.ok d) ∧
      ((∃ d' rs, Run.run DictOp.step d
          [.remove (intKey 0), .set (intKey 5) (.int 15)] = .ok (d', rs) ∧
          d'.Consistent) ∧
        ∃ d' rs, Run.run DictOp.step BreadDict.new
            [.set (intKey 0) (.int 10), .set (intKey 1) (.int 11)] = .ok (d', rs) ∧
          ∀ key : PlainKey,
            d.lookup key = .ok (storeAll (fun _ => none)
              [(.int 0, .int 10), (.int 1, .int 11)] key) ∧
            d'.lookup key = .ok (storeAll (fun _ => none)
              [(.int 0, .int 10), (.int 1, .int 11)] key)) := by
  refine ⟨_, rfl, ?_⟩
  have h := dict_stays_consistent
    (.literal [(intKey 0, .int 10), (intKey 1, .int 11)]) _ rfl
  exact ⟨h.1 [.remove (intKey 0), .set (intKey 5) (.int 15)]
    (by unfold DictOrigin.Clear; decide +kernel) (by decide +kernel),
    h.2 [(intKey 0, .int 10), (intKey 1, .int 11)] rfl (by decide)⟩

/-- A literal counts the second entry of a repeated key, which takes no slot. -/
theorem repeated_key_is_counted_twice :
    ¬ ∃ d, (DictOrigin.literal [(intKey 1, .int 10), (intKey 1, .int 11)]).build =
        .ok (.ok d) ∧ d.count = (liveEntries d.entries).length := by
  rintro ⟨d, hbuild, hcount⟩
  have hcounts : (DictOrigin.literal [(intKey 1, .int 10), (intKey 1, .int 11)]).build.map
      (fun r => r.map fun d => (d.count, (liveEntries d.entries).length)) =
      .ok (.ok (2, 1)) := by
    decide +kernel
  rw [hbuild] at hcounts
  simp only [Except.map, Except.ok.injEq, Prod.mk.injEq] at hcounts
  rw [hcounts.1, hcounts.2] at hcount
  exact absurd hcount (by decide)

end BreadLang
