import BreadLang.Core.DictRun

/-!
# The linear dictionary API against the probing one

`bread_dict_set` and `bread_dict_get` share the table with the probing API but
ignore hashes: a new key goes to the first free slot, and growing moves the live
entries to the front of the new table.  `bread_dict_get` finds a key wherever it
is (`Inv.get_spec`).  The probing lookups find it only if the slot it was put
in is one its probe path reaches, and that is an accident of its hash:
`first_string_key_is_lost` inserts one key into an empty dictionary and looks it
up in vain.

`SetStringClear` is the condition on the state and the key under which no
accident happens, and `string_lookups_agree` the result for whole runs.
-/

namespace BreadLang

open OpenAddressing

namespace BreadDict

/-! ### Scanning -/

private theorem scanLoop_eq (d : BreadDict) (test : BreadDictEntry → Bool)
    (n : ℕ) : ∀ i, i + n = d.entries.length →
      d.scanLoop test n i = .ok (((d.entries.drop i).findIdx? test).map (· + i)) := by
  induction n with
  | zero =>
      intro i hi
      rw [List.drop_eq_nil_of_le (by omega)]
      rfl
  | succ n ih =>
      intro i hi
      have hlt : i < d.entries.length := by omega
      rw [scanLoop, entryAt, List.getElem?_eq_getElem hlt,
        List.drop_eq_getElem_cons hlt, List.findIdx?_cons]
      by_cases htest : test d.entries[i] = true
      · simp [bind, Except.bind, pure, Except.pure, htest]
      · simp only [bind, Except.bind, htest, Bool.false_eq_true, if_false,
          ih (i + 1) (by omega), Option.map_map]
        refine congrArg _ (congrArg (fun f => Option.map f _) ?_)
        funext j
        simp only [Function.comp_apply]
        omega

/-- The scan returns the index of the first entry that passes the test. -/
theorem scan_eq {d : BreadDict} (hsized : d.capacity = d.entries.length)
    (test : BreadDictEntry → Bool) :
    d.scan test = .ok (d.entries.findIdx? test) := by
  rw [scan, scanLoop_eq d test _ 0 (by rw [hsized]; simp)]
  simp

theorem holdsString_iff {key : BreadString} (hkey : nul ∉ key)
    {e : BreadDictEntry} (he : e.isLive = true → e.key.isPlainKey = true) :
    holdsString key e = true ↔ e.slot = .live (.string key) e.value := by
  rw [BreadDictEntry.slot_eq_live_iff, holdsString]
  cases hlive : e.isLive with
  | false => simp
  | true =>
      have hplain := he hlive
      cases hk : e.key with
      | string s =>
          rw [hk] at hplain
          simp [cString_of_notMem hkey,
            cString_of_notMem (BreadValue.nul_notMem_of_isPlainKey hplain)]
      | _ => simp

/-- The scan for a key that is in the map ends in its slot. -/
theorem Inv.findIdx?_holdsString {d : BreadDict} (hd : d.Inv) {key : BreadString}
    (hkey : nul ∉ key) :
    match d.entries.findIdx? (holdsString key) with
    | some i => ∃ e, d.entries[i]? = some e ∧
        d.table[i]? = some (.live (.string key) e.value)
    | none => denote d.table (.string key) = none := by
  have hplain : ∀ (i : ℕ) (e : BreadDictEntry), d.entries[i]? = some e →
      e.isLive = true → e.key.isPlainKey = true := by
    intro i e hi hlive
    refine hd.plain (s := i) (v := e.value) ?_
    rw [table_getElem?, hi, Option.map_some, BreadDictEntry.slot_of_isLive hlive]
  cases hidx : d.entries.findIdx? (holdsString key) with
  | some i =>
      obtain ⟨hlt, htest, _⟩ := List.findIdx?_eq_some_iff_getElem.mp hidx
      have hi : d.entries[i]? = some d.entries[i] := List.getElem?_eq_getElem hlt
      refine ⟨d.entries[i], hi, ?_⟩
      rw [table_getElem?, hi, Option.map_some]
      exact congrArg _ ((holdsString_iff hkey (hplain i _ hi)).mp htest)
  | none =>
      rw [List.findIdx?_eq_none_iff] at hidx
      refine denote_eq_none_iff.mpr ?_
      intro i v hi
      rw [table_getElem?, Option.map_eq_some_iff] at hi
      obtain ⟨e, he, hslot⟩ := hi
      have hv : e.value = v := (BreadDictEntry.slot_eq_live_iff.mp hslot).2.2
      have htest := (holdsString_iff hkey (hplain i e he)).mpr (hv ▸ hslot)
      rw [hidx e (List.mem_iff_getElem?.mpr ⟨i, he⟩)] at htest
      exact absurd htest (by simp)

/-- **`bread_dict_get`** reads the map, in every state. -/
theorem Inv.get_spec {d : BreadDict} (hd : d.Inv) {key : BreadString}
    (hkey : nul ∉ key) : d.get key = .ok (denote d.table (.string key)) := by
  have hscan := hd.findIdx?_holdsString hkey
  rw [BreadDict.get, scan_eq hd.sized]
  cases hidx : d.entries.findIdx? (holdsString key) with
  | some i =>
      rw [hidx] at hscan
      obtain ⟨e, he, hlive⟩ := hscan
      rw [(denote_eq_some_iff hd.wellFormed.distinct).mpr ⟨i, hlive⟩]
      simp [bind, Except.bind, pure, Except.pure, entryAt, he]
  | none =>
      rw [hidx] at hscan
      rw [hscan]
      rfl

/-! ### Compacting -/

/-- Moving entries to the front of a table whose first slots are occupied and
whose other slots are as `calloc` leaves them.  The induction is on the entries
left to move. -/
theorem compactLoop_eq (es : List BreadDictEntry) :
    ∀ (occ : List BreadDictEntry) (r : ℕ) (d : BreadDict),
      (∀ e ∈ occ, e.isOccupied = true) →
      d.entries = occ ++ List.replicate r .zero →
      d.capacity = d.entries.length → (liveEntries es).length ≤ r →
      compactLoop es d = .ok { d with
        entries := occ ++ liveEntries es ++
          List.replicate (r - (liveEntries es).length) .zero
        count := d.count + (liveEntries es).length } := by
  induction es with
  | nil =>
      intro occ r d _ hentries _ _
      simp [compactLoop, liveEntries, ← hentries]
  | cons e es ih =>
      intro occ r d hocc hentries hsized hroom
      cases hlive : e.isLive with
      | false =>
          rw [liveEntries_cons_of_not_isLive hlive] at hroom ⊢
          rw [compactLoop, if_neg (by simp [hlive])]
          exact ih occ r d hocc hentries hsized hroom
      | true =>
          rw [liveEntries_cons_of_isLive hlive, List.length_cons] at hroom ⊢
          obtain ⟨r, rfl⟩ : ∃ r', r = r' + 1 := ⟨r - 1, by omega⟩
          -- the first slot that is not occupied is the one behind `occ`
          have hfirst : d.entries.findIdx? (fun e => !e.isOccupied) =
              some occ.length := by
            have hnone : occ.findIdx? (fun e => !e.isOccupied) = none := by
              rw [List.findIdx?_eq_none_iff]
              intro x hx
              simp [hocc x hx]
            rw [hentries, List.findIdx?_append, hnone, List.replicate_succ,
              List.findIdx?_cons]
            simp [BreadDictEntry.zero]
          have hset : d.entries.set occ.length e =
              (occ ++ [e]) ++ List.replicate r .zero := by
            rw [hentries, List.set_append_right _ _ (Nat.le_refl _), Nat.sub_self,
              List.replicate_succ, List.set_cons_zero]
            simp
          have hocc' : ∀ x ∈ occ ++ [e], x.isOccupied = true := by
            intro x hx
            rcases List.mem_append.mp hx with hx | hx
            · exact hocc x hx
            · rw [List.mem_singleton.mp hx]
              simp only [BreadDictEntry.isLive, Bool.and_eq_true] at hlive
              exact hlive.1
          have hrest := ih (occ ++ [e]) r
            { d with entries := d.entries.set occ.length e, count := d.count + 1 }
            hocc' hset (by simpa using hsized) (by omega)
          rw [compactLoop, if_pos hlive, scan_eq hsized, hfirst]
          simp only [bind, Except.bind]
          rw [hrest]
          have hcount : d.count + 1 + ((liveEntries es).length : ℤ) =
              d.count + ((liveEntries es).length + 1 : ℕ) := by
            push_cast
            omega
          rw [hcount, Nat.add_sub_add_right, List.append_assoc occ [e],
            List.singleton_append]

/-! ### When the linear insertion lands on the probe path -/

/-- The capacity after growing. -/
def capacityAfterGrowth (d : BreadDict) : ℤ :=
  if d.capacity = 0 then 8 else d.capacity * 2

/-- No free slot precedes the first free slot on the probe path of the key. -/
def FirstFreeReached (d : BreadDict) (key : BreadValue) : Prop :=
  match d.entries.findIdx? isFree with
  | some f => ∀ t < d.table.length,
      Probe.rank (home key) d.table.length t < Probe.rank (home key) d.table.length f →
        d.table[t]?.map Slot.isLive = some true
  | none => True

instance (d : BreadDict) (key : BreadValue) : Decidable (d.FirstFreeReached key) := by
  unfold FirstFreeReached
  split <;> infer_instance

/-- After growing, every key is where its probe path reaches it: the live keys
moved to the front, and the new one behind them. -/
def GrowthReached (d : BreadDict) (key : BreadValue) : Prop :=
  d.capacity * 2 ≤ intMax ∧
    PackedReachable home ((pairs d.table).map Prod.fst ++ [key])
      d.capacityAfterGrowth.toNat

instance (d : BreadDict) (key : BreadValue) : Decidable (d.GrowthReached key) :=
  inferInstanceAs (Decidable (_ ∧ _))

/-- What `bread_dict_set` needs of the state it is called in, when it is going
to insert a new key. -/
def SetStringClear (d : BreadDict) (key : BreadString) (value : BreadValue) : Prop :=
  d.keyMismatch (.string key) = false → d.valueMismatch value = false →
    denote d.table (.string key) = none →
      if d.loadReached then d.GrowthReached (.string key)
      else d.FirstFreeReached (.string key)

instance (d : BreadDict) (key : BreadString) (value : BreadValue) :
    Decidable (d.SetStringClear key value) := by
  unfold SetStringClear
  infer_instance

theorem isFree_iff (e : BreadDictEntry) : isFree e = true ↔ e.isLive = false := by
  cases ho : e.isOccupied <;> cases hd : e.isDeleted <;>
    simp [isFree, BreadDictEntry.isLive, ho, hd]

section Set

variable {d : BreadDict} {key : BreadString} {value : BreadValue}

/-- Writing the pair at the slot the search of the table returns. -/
private theorem Inv.setEntry_at_find (hd : d.Inv) (hnt : NoTombstone d.table)
    (hkey : nul ∉ key) (hkt : d.keyType = .typeString) {s : ℕ}
    (hfind : find home d.table (.string key) = some s) {e : BreadDictEntry}
    (he : e.slot = .live (.string key) value) {count : ℤ}
    (hcount : count = liveCount (d.table.set s e.slot)) :
    (d.setEntry s e count).Inv ∧ NoTombstone (d.setEntry s e count).table ∧
      denote (d.setEntry s e count).table =
        Function.update (denote d.table) (.string key) (some value) := by
  obtain ⟨hwf, hden⟩ :=
    place_find hd.wellFormed (unblocked_of_noTombstone hnt _) value hfind
  refine ⟨hd.setEntry ?_ (he ▸ hwf) hcount, ?_, ?_⟩
  · intro k v hkv
    rw [he] at hkv
    simp only [Slot.live.injEq] at hkv
    obtain ⟨rfl, rfl⟩ := hkv
    exact ⟨by simpa [BreadValue.isPlainKey] using hkey, hkt.symm⟩
  · rw [table_setEntry, he]
    exact noTombstone_place hnt _ _ _
  · rw [table_setEntry, he]
    exact hden

/-- The key is there already: its value is overwritten. -/
private theorem Inv.set_of_present (hd : d.Inv) (hnt : NoTombstone d.table)
    (hkey : nul ∉ key) (hkm : d.keyMismatch (.string key) = false)
    (hvm : d.valueMismatch value = false) {i : ℕ}
    (hscan : d.entries.findIdx? (holdsString key) = some i) :
    ∃ d', d.set key value = .ok (d', true) ∧ SetResult d (.string key) value d' := by
  have hlook := hd.findIdx?_holdsString hkey
  rw [hscan] at hlook
  obtain ⟨e, he, hlive⟩ := hlook
  have hinv := hd.adoptTypes (.string key) value
  have hslot : e.slot = .live (.string key) e.value := by
    rw [table_getElem?, he, Option.map_some] at hlive
    exact Option.some.inj hlive
  obtain ⟨helive, hekey, _⟩ := BreadDictEntry.slot_eq_live_iff.mp hslot
  have hnew : ({ e with value := value } : BreadDictEntry).slot =
      .live (.string key) value := by
    rw [← hekey]
    exact BreadDictEntry.slot_of_isLive (e := { e with value := value }) helive
  have hcount : d.count = liveCount ((d.adoptTypes (.string key) value).table.set i
      ({ e with value := value } : BreadDictEntry).slot) := by
    rw [adoptTypes_table, hnew, liveCount_place _ _ hlive, hd.count_eq]
    rfl
  obtain ⟨hinv', hnt', hden⟩ := hinv.setEntry_at_find hnt hkey
    (hd.adoptTypes_keyType hkm value)
    (find_of_live hd.wellFormed (unblocked_of_noTombstone hnt _) hlive) hnew hcount
  refine ⟨_, ?_, ⟨hinv', hd.adoptTypes_keyType hkm value, rfl, hden, fun _ => hnt',
    Int.le_add_one (Int.le_refl _)⟩⟩
  rw [BreadDict.set, hkm, hvm]
  simp only [Bool.false_eq_true, if_false, scan_eq hinv.sized, adoptTypes_entries,
    hscan, bind, Except.bind]
  rw [entryAt_eq (d := d.adoptTypes (.string key) value) he]
  rfl

/-- A new key that fits without growing goes to the first free slot, which its
probe path reaches. -/
private theorem Inv.set_of_room (hd : d.Inv) (hnt : NoTombstone d.table)
    (hkey : nul ∉ key) (hkm : d.keyMismatch (.string key) = false)
    (hvm : d.valueMismatch value = false)
    (hscan : d.entries.findIdx? (holdsString key) = none)
    (hload : d.loadReached = false) (hreach : d.FirstFreeReached (.string key)) :
    ∃ d', d.set key value = .ok (d', true) ∧ SetResult d (.string key) value d' := by
  have habsent := hd.findIdx?_holdsString hkey
  rw [hscan] at habsent
  have hinv := hd.adoptTypes (.string key) value
  -- a table that is not loaded has a free slot
  obtain ⟨f, hf⟩ : ∃ f, d.entries.findIdx? isFree = some f := by
    cases hidx : d.entries.findIdx? isFree with
    | some f => exact ⟨f, rfl⟩
    | none =>
        rw [List.findIdx?_eq_none_iff] at hidx
        have hall : liveCount d.table = d.table.length := by
          rw [liveCount, List.countP_eq_length]
          intro x hx
          rw [table, List.mem_map] at hx
          obtain ⟨e, he, rfl⟩ := hx
          have hfree := hidx e he
          rw [BreadDictEntry.isLive_slot]
          by_contra hlive
          rw [(isFree_iff e).mpr (by simpa using hlive)] at hfree
          exact absurd hfree (by simp)
        have hsized := hd.sized
        have hcount := hd.count_eq
        rw [length_table] at hall
        simp only [loadReached, decide_eq_false_iff_not] at hload
        omega
  obtain ⟨hlt, hfree, _⟩ := List.findIdx?_eq_some_iff_getElem.mp hf
  have he : d.entries[f]? = some d.entries[f] := List.getElem?_eq_getElem hlt
  have hslot : d.table[f]? = some d.entries[f].slot := by
    rw [table_getElem?, he]; rfl
  have hnotLive : d.entries[f].isLive = false := (isFree_iff _).mp hfree
  have hfind : find home d.table (.string key) = some f := by
    rw [find_eq_some_iff]
    refine ⟨by rw [length_table]; exact hlt, ?_, ?_⟩
    · intro k' v hk'
      rw [hslot] at hk'
      have hisLive := d.entries[f].isLive_slot
      rw [Option.some.inj hk', hnotLive] at hisLive
      exact absurd hisLive (by simp)
    · intro t ht
      simp only [FirstFreeReached, hf] at hreach
      have hlive := hreach t ht.1 ht.2
      rw [Option.map_eq_some_iff] at hlive
      obtain ⟨x, hx, hxlive⟩ := hlive
      obtain ⟨k', v, rfl⟩ := Slot.isLive_iff.mp hxlive
      refine ⟨k', v, hx, ?_⟩
      rintro rfl
      exact denote_eq_none_iff.mp habsent t v hx
  have hcount : d.count + 1 = liveCount ((d.adoptTypes (.string key) value).table.set f
      (BreadDictEntry.mk (.string key) value true false).slot) := by
    rw [adoptTypes_table, BreadDictEntry.slot_stored, liveCount_place _ _ hslot,
      BreadDictEntry.isLive_slot, hnotLive, hd.count_eq]
    rfl
  obtain ⟨hinv', hnt', hden⟩ := hinv.setEntry_at_find hnt hkey
    (hd.adoptTypes_keyType hkm value) hfind (BreadDictEntry.slot_stored _ value) hcount
  refine ⟨_, ?_, ⟨hinv', hd.adoptTypes_keyType hkm value, rfl, hden, fun _ => hnt',
    Int.le_refl _⟩⟩
  have hload' : (d.adoptTypes (.string key) value).loadReached = false := hload
  rw [BreadDict.set, hkm, hvm]
  simp only [Bool.false_eq_true, if_false, scan_eq hinv.sized, adoptTypes_entries,
    hscan, bind, Except.bind, hload', insertFirstFree, hf]
  rfl

/-- The entries after growing and inserting. -/
theorem insertFirstFree_compacted (d : BreadDict) (key : BreadString)
    (value : BreadValue) (es : List BreadDictEntry) (r : ℕ)
    (hentries : d.entries = liveEntries es ++ List.replicate (r + 1) .zero)
    (hsized : d.capacity = d.entries.length) :
    d.insertFirstFree key value = .ok ({ d with
      entries := liveEntries es ++
        ⟨.string key, value, true, false⟩ :: List.replicate r .zero
      count := d.count + 1 }, true) := by
  have hfirst : d.entries.findIdx? isFree = some (liveEntries es).length := by
    have hnone : (liveEntries es).findIdx? isFree = none := by
      rw [List.findIdx?_eq_none_iff]
      intro x hx
      have hlive : x.isLive = true := (List.mem_filter.mp hx).2
      by_contra hfree
      rw [(isFree_iff x).mp (by simpa using hfree)] at hlive
      exact absurd hlive (by simp)
    rw [hentries, List.findIdx?_append, hnone, List.replicate_succ, List.findIdx?_cons]
    simp [isFree, BreadDictEntry.zero]
  rw [insertFirstFree, scan_eq hsized, hfirst]
  simp only [bind, Except.bind, pure, Except.pure]
  rw [hentries, List.set_append_right _ _ (Nat.le_refl _), Nat.sub_self,
    List.replicate_succ, List.set_cons_zero]

/-- A new key that makes the table grow: the live entries move to the front,
the key goes behind them, and every probe path stays inside that prefix. -/
private theorem Inv.set_of_growth (hd : d.Inv) (hkey : nul ∉ key)
    (hkm : d.keyMismatch (.string key) = false)
    (hvm : d.valueMismatch value = false)
    (hscan : d.entries.findIdx? (holdsString key) = none)
    (hload : d.loadReached = true) (hreach : d.GrowthReached (.string key)) :
    ∃ d', d.set key value = .ok (d', true) ∧ SetResult d (.string key) value d' := by
  have habsent := hd.findIdx?_holdsString hkey
  rw [hscan] at habsent
  have hinv := hd.adoptTypes (.string key) value
  have hsized := hd.sized
  have hle := hd.liveCount_le
  obtain ⟨hmax, hpacked⟩ := hreach
  have hn := length_liveEntries d
  -- the new capacity, and that it has room for one more entry
  have hcap : (d.adoptTypes (.string key) value).grownCapacity =
      .ok d.capacityAfterGrowth := by
    rw [grownCapacity, capacityAfterGrowth, adoptTypes_capacity]
    split
    · rfl
    · exact checkedInt_of_mem ⟨by rw [intMin]; omega, hmax⟩
  have hroom : (liveCount d.table : ℤ) < d.capacityAfterGrowth ∧
      d.capacityAfterGrowth ≤ intMax := by
    rw [capacityAfterGrowth]
    split
    · exact ⟨by omega, by decide⟩
    · exact ⟨by omega, hmax⟩
  obtain ⟨r, hr⟩ : ∃ r : ℕ,
      d.capacityAfterGrowth = ((liveCount d.table + (r + 1) : ℕ) : ℤ) :=
    ⟨(d.capacityAfterGrowth - liveCount d.table - 1).toNat, by omega⟩
  have hnat : d.capacityAfterGrowth.toNat = liveCount d.table + (r + 1) := by omega
  have hcompact := compactLoop_eq d.entries [] d.capacityAfterGrowth.toNat
    { d.adoptTypes (.string key) value with
      entries := List.replicate d.capacityAfterGrowth.toNat .zero
      capacity := d.capacityAfterGrowth
      count := 0 }
    (by simp) (by simp) (by simp only [List.length_replicate]; omega)
    (by rw [hn]; omega)
  have hleft : d.capacityAfterGrowth.toNat - (liveEntries d.entries).length = r + 1 := by
    omega
  rw [hleft, List.nil_append] at hcompact
  have hinsert := insertFirstFree_compacted
    { d.adoptTypes (.string key) value with
      entries := liveEntries d.entries ++ List.replicate (r + 1) .zero
      capacity := d.capacityAfterGrowth
      count := 0 + ((liveEntries d.entries).length : ℤ) }
    key value d.entries r rfl
    (by
      simp only [List.length_append, List.length_replicate]
      omega)
  have hkt := hd.adoptTypes_keyType hkm value
  generalize hd' : ({ d.adoptTypes (.string key) value with
      entries := liveEntries d.entries ++
        ⟨.string key, value, true, false⟩ :: List.replicate r .zero
      capacity := d.capacityAfterGrowth
      count := 0 + ((liveEntries d.entries).length : ℤ) + 1 } : BreadDict) = d' at hinsert
  have htable : d'.table = packed (pairs d.table ++ [(.string key, value)]) r := by
    rw [← hd', table, List.map_append, List.map_cons, slot_liveEntries, packed,
      List.map_append, List.append_assoc]
    simp [livePairs, table]
  have hlength : (pairs d.table ++ [(BreadValue.string key, value)]).length + r =
      d.capacityAfterGrowth.toNat := by
    rw [List.length_append, length_pairs, List.length_singleton]
    omega
  have hkeys : (pairs d.table ++ [(BreadValue.string key, value)]).map Prod.fst =
      (pairs d.table).map Prod.fst ++ [.string key] := by
    simp
  have hnodup : ((pairs d.table ++ [(BreadValue.string key, value)]).map
      Prod.fst).Nodup := by
    rw [hkeys, List.nodup_append]
    refine ⟨nodup_keys_of_distinct hd.wellFormed.distinct, by simp, ?_⟩
    intro k hk k' hk' heq
    obtain ⟨⟨k'', v⟩, hmem, rfl⟩ := List.mem_map.mp hk
    obtain ⟨s, hs⟩ := mem_pairs.mp hmem
    rw [List.mem_singleton.mp hk'] at heq
    simp only at heq
    rw [heq] at hs
    exact denote_eq_none_iff.mp habsent s v hs
  have hlivePair : ∀ {s : ℕ} {k v : BreadValue}, d'.table[s]? = some (.live k v) →
      k.isPlainKey = true ∧ k.type = d'.keyType := by
    intro s k v hs
    have hkt' : d'.keyType = .typeString := by rw [← hd']; exact hkt
    rw [htable] at hs
    rcases List.mem_append.mp (List.mem_of_getElem? (packed_live hs)) with hold | hnew
    · obtain ⟨t, ht⟩ := mem_pairs.mp hold
      refine ⟨hd.plain ht, ?_⟩
      rw [hkt']
      exact (hinv.keyTyped ht).trans hkt
    · simp only [List.mem_singleton, Prod.mk.injEq] at hnew
      rw [hnew.1, hkt']
      exact ⟨by simpa [BreadValue.isPlainKey] using hkey, rfl⟩
  refine ⟨d', ?_, ?_⟩
  · have hload' : (d.adoptTypes (.string key) value).loadReached = true := hload
    rw [BreadDict.set, hkm, hvm]
    simp only [Bool.false_eq_true, if_false, scan_eq hinv.sized, adoptTypes_entries,
      hscan, bind, Except.bind, hload', if_true, hcap]
    rw [if_neg (by omega), hcompact]
    exact hinsert
  have hcount : d'.count = d.count + 1 := by
    rw [← hd', hd.count_eq, hn, Int.zero_add]
  exact
    { inv :=
        { sized := by
            rw [← hd']
            simp only [List.length_append, List.length_cons, List.length_replicate]
            omega
          bounded := by rw [← hd']; exact hroom.2
          plain := fun hs => (hlivePair hs).1
          keyTyped := fun hs => (hlivePair hs).2
          wellFormed := by
            rw [htable]
            refine wellFormed_packed hnodup ?_
            rw [hlength, hkeys]
            exact hpacked
          count_eq := by
            rw [htable, ← length_pairs, pairs_packed, hcount, hd.count_eq,
              List.length_append, length_pairs, List.length_singleton]
            push_cast
            omega }
      keyType := by rw [← hd']; exact hkt
      valueType := by rw [← hd']
      denote_eq := by
        funext k
        rw [denote, htable, pairs_packed, assoc_append, assoc_cons, assoc_nil]
        by_cases hk : .string key = k
        · subst hk
          have hnone : assoc (pairs d.table) (.string key) = none := habsent
          simp [hnone]
        · rw [Function.update_of_ne (Ne.symm hk), if_neg hk, Option.or_none]
          rfl
      noTombstone := by
        intro _
        rw [htable]
        exact noTombstone_packed _ _
      count_le := Int.le_of_eq hcount }

/-- **`bread_dict_set` on accepted types**, in a state that is clear for it. -/
theorem Inv.set_spec (hd : d.Inv) (hnt : NoTombstone d.table) (hkey : nul ∉ key)
    (hkm : d.keyMismatch (.string key) = false)
    (hvm : d.valueMismatch value = false) (hclear : d.SetStringClear key value) :
    ∃ d', d.set key value = .ok (d', true) ∧ SetResult d (.string key) value d' := by
  cases hscan : d.entries.findIdx? (holdsString key) with
  | some i => exact hd.set_of_present hnt hkey hkm hvm hscan
  | none =>
      have habsent := hd.findIdx?_holdsString hkey
      rw [hscan] at habsent
      have hclear' := hclear hkm hvm habsent
      cases hload : d.loadReached with
      | true =>
          rw [hload, if_pos rfl] at hclear'
          exact hd.set_of_growth hkey hkm hvm hscan hload hclear'
      | false =>
          rw [hload, if_neg (by simp)] at hclear'
          exact hd.set_of_room hnt hkey hkm hvm hscan hload hclear'

end Set

/-- A rejected set leaves the dictionary alone. -/
theorem set_of_mismatch {d : BreadDict} {key : BreadString} {value : BreadValue}
    (h : d.keyMismatch (.string key) = true ∨ d.valueMismatch value = true) :
    d.set key value = .ok (d, false) := by
  rw [BreadDict.set]
  by_cases hk : d.keyMismatch (.string key) = true
  · exact if_pos hk
  · rw [if_neg hk]
    exact if_pos (h.resolve_left hk)

end BreadDict

/-! ### Mixing the two ways to store a string key -/

open BreadDict

/-- A string that a `const char*` can carry. -/
abbrev CKey := { s : BreadString // nul ∉ s }

/-- A string key as a key of the dictionary. -/
def CKey.toPlainKey (key : CKey) : PlainKey :=
  ⟨.string key.1, by simpa [BreadValue.isPlainKey] using key.2⟩

/-- A call of one of the two functions that store a pair. -/
inductive StringSet where
  | set (key : CKey) (value : BreadValue)
  | setSafe (key : CKey) (value : BreadValue)

namespace StringSet

/-- The pair stored. -/
def value : StringSet → BreadValue
  | .set _ value => value
  | .setSafe _ value => value

/-- One call, executed by the runtime. -/
def step (d : BreadDict) : StringSet → Exec (BreadDict × Bool)
  | .set key value => d.set key.1 value
  | .setSafe key value => do
      let (d', r) ← d.setSafe (.string key.1) value
      return (d', r.toBool)

/-- One call, as an operation on a finite map. -/
def spec (accepts : Bool) (m : DictMap) : StringSet → DictMap × Bool
  | .set key value | .setSafe key value =>
      if accepts then (Function.update m (.string key.1) (some value), true)
      else (m, false)

/-- The state a call may safely be made in. -/
def Clear (d : BreadDict) : StringSet → Prop
  | .set key value => d.SetStringClear key.1 value
  | .setSafe _ _ => d.GrowthFits

instance (d : BreadDict) (op : StringSet) : Decidable (op.Clear d) := by
  cases op <;> unfold Clear <;> infer_instance

section Step

variable {c : DictConstructor} {valueType : VarType} {d : BreadDict} {m : DictMap}

/-- **One call.**  Without tombstones, and in a state that is clear for the
call, both functions update the map, and leave no tombstone. -/
theorem step_refines (h : Refines c .typeString valueType d m)
    (hnt : NoTombstone d.table) (op : StringSet) (htype : op.value.type = valueType)
    (hclear : op.Clear d) :
    ∃ d', op.step d = .ok (d', (op.spec (c.accepts .typeString valueType) m).2) ∧
      Refines c .typeString valueType d'
        (op.spec (c.accepts .typeString valueType) m).1 ∧
      NoTombstone d'.table := by
  have hiff : ∀ key : BreadString, (d.keyMismatch (.string key) = false ∧
      d.valueMismatch op.value = false) ↔
        c.accepts .typeString valueType = true :=
    fun key => h.mismatch_iff (rfl : (BreadValue.string key).type = _) htype
  cases hacc : c.accepts .typeString valueType with
  | false =>
      have hmis : ∀ key : BreadString, d.keyMismatch (.string key) = true ∨
          d.valueMismatch op.value = true := by
        intro key
        by_contra hcon
        push Not at hcon
        have := (hiff key).mp ⟨by simpa using hcon.1, by simpa using hcon.2⟩
        simp [hacc] at this
      refine ⟨d, ?_, ?_, hnt⟩
      · cases op with
        | set key value => exact set_of_mismatch (hmis key.1)
        | setSafe key value =>
            obtain ⟨e, hset⟩ := setSafe_of_mismatch (hmis key.1)
            have hset' : d.setSafe (.string key.1) value = .ok (d, .error e) := hset
            rw [step, hset']
            rfl
      · cases op <;> exact h
  | true =>
      cases op with
      | set key value =>
          obtain ⟨hkm, hvm⟩ := (hiff key.1).mpr hacc
          obtain ⟨d', hset, hres⟩ := h.inv.set_spec hnt key.2 hkm hvm hclear
          exact ⟨d', hset, h.set hacc rfl htype hres, hres.noTombstone hnt⟩
      | setSafe key value =>
          obtain ⟨hkm, hvm⟩ := (hiff key.1).mpr hacc
          obtain ⟨d', hset, hres⟩ := h.inv.setSafe_spec key.toPlainKey.2 hkm hvm
            ⟨hclear, fun _ => unblocked_of_noTombstone hnt _⟩
          refine ⟨d', ?_, h.set hacc rfl htype hres, hres.noTombstone hnt⟩
          have hset' : d.setSafe (.string key.1) value = .ok (d', .ok ()) := hset
          rw [step, hset']
          rfl

end Step
end StringSet

/-- The three lookups agree that `key` has the value `v`, or none. -/
def BreadDict.LookupsGive (d : BreadDict) (key : CKey) (v : Option BreadValue) :
    Prop :=
  d.get key.1 = .ok v ∧ (d.getSafe (.string key.1)).map returnedPointer = .ok v ∧
    d.containsKey (.string key.1) = .ok v.isSome

/-- **The two APIs are interchangeable** in every run all of whose calls are made
in clear states: the three lookups report the last value stored. -/
theorem string_lookups_agree (c : DictConstructor) (valueType : VarType)
    (ops : List StringSet) (htypes : ∀ op ∈ ops, op.value.type = valueType)
    (hc : c.Sized)
    (hclear : Run.Guarded StringSet.step (fun d op => op.Clear d) c.build ops) :
    ∃ d', Run.run StringSet.step c.build ops =
        .ok (d', (Run.replay (StringSet.spec (c.accepts .typeString valueType))
          (fun _ => none) ops).2) ∧
      ∀ key : CKey, d'.LookupsGive key
        ((Run.replay (StringSet.spec (c.accepts .typeString valueType))
          (fun _ => none) ops).1 (.string key.1)) := by
  obtain ⟨d', hrun, hrel, hnt⟩ := Run.run_refines
    (fun d m => Refines c .typeString valueType d m ∧ NoTombstone d.table) ops
    (fun d m op hop h hg => StringSet.step_refines h.1 h.2 op (htypes op hop) hg)
    c.build (fun _ => none)
    ⟨⟨DictConstructor.build_inv hc, funext c.build_denote,
      Or.inl c.build_keyType, Or.inl c.build_valueType⟩,
      by rw [c.build_table]; exact noTombstone_replicate _⟩ hclear
  refine ⟨d', hrun, ?_⟩
  intro key
  have hunblocked : Unblocked home d'.table (.string key.1) :=
    unblocked_of_noTombstone hnt _
  have hplain := key.toPlainKey.2
  obtain ⟨r, hget, hret⟩ := hrel.inv.getSafe_spec hplain hunblocked
  have hget' : d'.getSafe (.string key.1) = .ok r := hget
  rw [← hrel.denote_eq]
  refine ⟨hrel.inv.get_spec key.2, ?_, hrel.inv.containsKey_spec hplain hunblocked⟩
  rw [hget', Except.map, hret]
  rfl

/-- The string key `s`. -/
def stringKey (s : BreadString) (h : nul ∉ s) : CKey := ⟨s, h⟩

/-- Two keys whose homes are the slots the linear insertion uses. -/
theorem string_lookups_agree_applies :
    ∃ d', Run.run StringSet.step BreadDict.new
        [.set (stringKey ['e'] (by decide)) (.int 1),
          .set (stringKey ['f'] (by decide)) (.int 2),
          .setSafe (stringKey ['g'] (by decide)) (.int 3)] =
        .ok (d', [true, true, true]) ∧
      ∀ key : CKey, d'.LookupsGive key
        ((Run.replay (StringSet.spec true) (fun _ => none)
          [.set (stringKey ['e'] (by decide)) (.int 1),
            .set (stringKey ['f'] (by decide)) (.int 2),
            .setSafe (stringKey ['g'] (by decide)) (.int 3)]).1 (.string key.1)) :=
  string_lookups_agree .new .typeInt _ (by decide) trivial (by decide +kernel)

/-- The first key stored with `bread_dict_set` goes to slot 0, where the lookup
by hash does not find it. -/
theorem first_string_key_is_lost :
    ¬ ∃ d', Run.run StringSet.step BreadDict.new
        [.set (stringKey ['a'] (by decide)) (.int 1)] = .ok (d', [true]) ∧
      ∀ key : CKey, d'.LookupsGive key
        ((Run.replay (StringSet.spec true) (fun _ => none)
          [.set (stringKey ['a'] (by decide)) (.int 1)]).1 (.string key.1)) := by
  rintro ⟨d', hrun, hlookups⟩
  have hspec : (Run.replay (StringSet.spec true) (fun _ => none)
      [.set (stringKey ['a'] (by decide)) (.int 1)]).1 (.string ['a']) =
      some (.int 1) := by
    decide +kernel
  have hlost : (Run.run StringSet.step BreadDict.new
      [.set (stringKey ['a'] (by decide)) (.int 1)]).bind
        (fun p => (p.1.getSafe (.string ['a'])).map returnedPointer) = .ok none := by
    decide +kernel
  have hsafe : (d'.getSafe (.string ['a'])).map returnedPointer =
      .ok (some (.int 1)) :=
    (hlookups (stringKey ['a'] (by decide))).2.1.trans (congrArg Except.ok hspec)
  rw [hrun, Except.bind, hsafe] at hlost
  simp at hlost

end BreadLang
