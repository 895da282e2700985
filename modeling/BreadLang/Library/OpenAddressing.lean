import Mathlib.Data.List.Nodup
import BreadLang.Library.Probe

/-!
# Open addressing with tombstones

A table is a list of slots.  A slot is empty, holds a live key and its value,
or is a tombstone: the place of a key that was removed.  The slots of a key are
probed in the cyclic order from its home slot, and the search implemented here
stops at the first slot that is empty, is a tombstone, or holds the key.

Such a table denotes a finite map (`denote`).  Two facts make the search find
a stored key:

* `Distinct`: a key is live in at most one slot;
* `Reachable`: no slot that precedes a live key's slot in the key's probe order
  is empty.

They are not enough.  A tombstone that precedes the key's slot also stops the
search, so every lookup lemma carries the third fact, `Unblocked`, as a
hypothesis about the key looked up.  It is a property of the table before the
operation, and the operations do not preserve it: `erase` creates tombstones.
In a table without tombstones it holds for every key (`unblocked_of_noTombstone`),
which is why rebuilding a table restores it.
-/

namespace BreadLang
namespace OpenAddressing

open Probe

variable {K V : Type}

/-- The content of one slot. -/
inductive Slot (K V : Type) where
  | empty
  | tombstone
  | live (k : K) (v : V)
  deriving DecidableEq

/-- A table is the list of its slots. -/
abbrev Table (K V : Type) := List (Slot K V)

/-- Whether the slot holds a key. -/
def Slot.isLive : Slot K V → Bool
  | .live _ _ => true
  | _ => false

/-- The pair a slot holds. -/
def Slot.pair? : Slot K V → Option (K × V)
  | .live k v => some (k, v)
  | _ => none

@[simp] theorem Slot.isLive_empty : (Slot.empty : Slot K V).isLive = false := rfl
@[simp] theorem Slot.isLive_tombstone :
    (Slot.tombstone : Slot K V).isLive = false := rfl
@[simp] theorem Slot.isLive_live (k : K) (v : V) :
    (Slot.live k v).isLive = true := rfl

theorem Slot.isLive_iff {x : Slot K V} :
    x.isLive = true ↔ ∃ k v, x = .live k v := by
  cases x <;> simp [Slot.isLive]

/-- The live pairs of a table, in slot order. -/
def pairs (T : Table K V) : List (K × V) :=
  T.filterMap Slot.pair?

/-- The number of live slots. -/
def liveCount (T : Table K V) : ℕ :=
  T.countP Slot.isLive

theorem length_pairs (T : Table K V) : (pairs T).length = liveCount T := by
  induction T with
  | nil => rfl
  | cons x T ih =>
      cases x <;>
        simpa [pairs, liveCount, List.filterMap_cons, List.countP_cons,
          Slot.pair?] using ih

/-! ### Invariants -/

/-- A key is live in at most one slot. -/
def Distinct (T : Table K V) : Prop :=
  ∀ ⦃s t : ℕ⦄ ⦃k : K⦄ ⦃v w : V⦄,
    T[s]? = some (.live k v) → T[t]? = some (.live k w) → s = t

/-- Slot `t` precedes slot `s` on the probe path of a key with home `h`. -/
def Precedes (T : Table K V) (h t s : ℕ) : Prop :=
  t < T.length ∧ rank h T.length t < rank h T.length s

/-- No slot on the way to a live key is empty. -/
def Reachable (home : K → ℕ) (T : Table K V) : Prop :=
  ∀ ⦃s : ℕ⦄ ⦃k : K⦄ ⦃v : V⦄, T[s]? = some (.live k v) →
    ∀ t, Precedes T (home k) t s → T[t]? ≠ some .empty

/-- No tombstone lies on the way to `k`'s slot, if `k` is live at all. -/
def Unblocked (home : K → ℕ) (T : Table K V) (k : K) : Prop :=
  ∀ ⦃s : ℕ⦄ ⦃v : V⦄, T[s]? = some (.live k v) →
    ∀ t, Precedes T (home k) t s → T[t]? ≠ some .tombstone

/-- Whether `k` is unblocked can be computed: only live slots of `k` and the
tombstones of the table matter. -/
def Slot.isTombstone : Slot K V → Bool
  | .tombstone => true
  | _ => false

instance [DecidableEq K] (home : K → ℕ) (T : Table K V) (k : K) :
    Decidable (Unblocked home T k) :=
  decidable_of_iff
    (∀ s < T.length, (T[s]?.bind Slot.pair?).map Prod.fst = some k →
      ∀ t < T.length, rank (home k) T.length t < rank (home k) T.length s →
        T[t]?.map Slot.isTombstone ≠ some true)
    (by
      constructor
      · intro h s v hs t ht heq
        refine h s (List.getElem?_eq_some_iff.mp hs).1 (by simp [hs, Slot.pair?])
          t ht.1 ht.2 ?_
        simp [heq, Slot.isTombstone]
      · intro h s hs hk t ht hrank heq
        rw [List.getElem?_eq_getElem hs] at hk
        cases hx : T[s] with
        | empty => simp [hx, Slot.pair?] at hk
        | tombstone => simp [hx, Slot.pair?] at hk
        | live k' v =>
            simp only [hx, Slot.pair?, Option.bind_some, Option.map_some,
              Option.some.injEq] at hk
            subst hk
            have hs' : T[s]? = some (.live k' v) := by
              rw [List.getElem?_eq_getElem hs, hx]
            refine h hs' t ⟨ht, hrank⟩ ?_
            rw [List.getElem?_eq_getElem ht] at heq ⊢
            cases hy : T[t] <;> simp_all [Slot.isTombstone])

/-- The table has no tombstones. -/
def NoTombstone (T : Table K V) : Prop :=
  ∀ s : ℕ, T[s]? ≠ some .tombstone

/-- The representation invariant of the table. -/
structure WellFormed (home : K → ℕ) (T : Table K V) : Prop where
  distinct : Distinct T
  reachable : Reachable home T

theorem unblocked_of_noTombstone {home : K → ℕ} {T : Table K V}
    (h : NoTombstone T) (k : K) : Unblocked home T k :=
  fun _ _ _ t _ => h t

theorem lt_length_of_live {T : Table K V} {s : ℕ} {x : Slot K V}
    (h : T[s]? = some x) : s < T.length :=
  (List.getElem?_eq_some_iff.mp h).1

/-- Distinct live keys, read off the list of live pairs. -/
theorem nodup_keys_of_distinct {T : Table K V} (hT : Distinct T) :
    ((pairs T).map Prod.fst).Nodup := by
  rw [List.Nodup, List.pairwise_map, pairs, List.pairwise_filterMap,
    List.pairwise_iff_getElem]
  intro i j hi hj hij p hp q hq heq
  have live_of_pair : ∀ {x : Slot K V} {r : K × V}, x.pair? = some r →
      x = .live r.1 r.2 := by
    intro x r hr
    cases x <;> simp_all [Slot.pair?, Prod.ext_iff]
  have hpi : T[i]? = some (.live p.1 p.2) := by
    rw [List.getElem?_eq_getElem hi, live_of_pair hp]
  have hqj : T[j]? = some (.live p.1 q.2) := by
    rw [List.getElem?_eq_getElem hj, live_of_pair hq, heq]
  exact absurd (hT hpi hqj) (Nat.ne_of_lt hij)

/-- A table all of whose slots are empty. -/
theorem wellFormed_replicate (home : K → ℕ) (n : ℕ) :
    WellFormed home (List.replicate n (Slot.empty : Slot K V)) := by
  constructor
  · intro s t k v w hs
    simp [List.getElem?_replicate] at hs
  · intro s k v hs
    simp [List.getElem?_replicate] at hs

theorem liveCount_replicate (n : ℕ) :
    liveCount (List.replicate n (Slot.empty : Slot K V)) = 0 := by
  simp [liveCount, List.countP_eq_zero]

theorem noTombstone_replicate (n : ℕ) :
    NoTombstone (List.replicate n (Slot.empty : Slot K V)) := by
  intro s hs
  simp [List.getElem?_replicate] at hs

/-- Reading a table after one slot has been written. -/
theorem getElem?_set_eq_some {T : Table K V} {s t : ℕ} {x y : Slot K V}
    (h : (T.set s x)[t]? = some y) :
    (t = s ∧ y = x) ∨ (t ≠ s ∧ T[t]? = some y) := by
  rw [List.getElem?_set] at h
  split at h
  · next heq =>
      split at h
      · exact Or.inl ⟨heq.symm, by simpa using h.symm⟩
      · exact absurd h (by simp)
  · next hne => exact Or.inr ⟨fun heq => hne heq.symm, h⟩

theorem getElem?_set_of_ne {T : Table K V} {s t : ℕ} {x : Slot K V}
    (h : t ≠ s) : (T.set s x)[t]? = T[t]? := by
  rw [List.getElem?_set_ne (Ne.symm h)]

theorem getElem?_set_of_eq {T : Table K V} {s : ℕ} {x : Slot K V}
    (h : s < T.length) : (T.set s x)[s]? = some x := by
  simp [h]

theorem precedes_set {T : Table K V} {s h t u : ℕ} {x : Slot K V} :
    Precedes (T.set s x) h t u ↔ Precedes T h t u := by
  simp [Precedes]

/-! ### The map a table denotes -/

section Denote

variable [DecidableEq K]

/-- The value a list of pairs associates with `k`; the first pair counts. -/
def assoc (ps : List (K × V)) (k : K) : Option V :=
  (ps.find? fun p => p.1 = k).map Prod.snd

@[simp] theorem assoc_nil (k : K) : assoc ([] : List (K × V)) k = none := rfl

theorem assoc_cons (p : K × V) (ps : List (K × V)) (k : K) :
    assoc (p :: ps) k = if p.1 = k then some p.2 else assoc ps k := by
  rw [assoc, List.find?_cons]
  by_cases h : p.1 = k <;> simp [h, assoc]

theorem assoc_append (ps qs : List (K × V)) (k : K) :
    assoc (ps ++ qs) k = (assoc ps k).or (assoc qs k) := by
  rw [assoc, List.find?_append]
  cases h : ps.find? fun p => p.1 = k <;> simp [assoc, h]

theorem assoc_eq_none_of_notMem {ps : List (K × V)} {k : K}
    (h : k ∉ ps.map Prod.fst) : assoc ps k = none := by
  rw [assoc, Option.map_eq_none_iff, List.find?_eq_none]
  rintro ⟨k', v⟩ hmem
  simp only [decide_eq_true_eq]
  rintro rfl
  exact h (List.mem_map.mpr ⟨_, hmem, rfl⟩)

/-- The value stored under `k`: the map the table stands for. -/
def denote (T : Table K V) (k : K) : Option V :=
  assoc (pairs T) k

omit [DecidableEq K] in
theorem mem_pairs {T : Table K V} {k : K} {v : V} :
    (k, v) ∈ pairs T ↔ ∃ s : ℕ, T[s]? = some (.live k v) := by
  rw [pairs, List.mem_filterMap]
  constructor
  · rintro ⟨x, hx, hpair⟩
    obtain ⟨s, hs⟩ := List.mem_iff_getElem?.mp hx
    cases x with
    | empty => simp [Slot.pair?] at hpair
    | tombstone => simp [Slot.pair?] at hpair
    | live k' v' =>
        simp only [Slot.pair?, Option.some.injEq, Prod.mk.injEq] at hpair
        obtain ⟨rfl, rfl⟩ := hpair
        exact ⟨s, hs⟩
  · rintro ⟨s, hs⟩
    exact ⟨_, List.mem_iff_getElem?.mpr ⟨s, hs⟩, rfl⟩

theorem denote_eq_none_iff {T : Table K V} {k : K} :
    denote T k = none ↔ ∀ (s : ℕ) v, T[s]? ≠ some (.live k v) := by
  rw [denote, assoc, Option.map_eq_none_iff, List.find?_eq_none]
  constructor
  · intro h s v hs
    simpa using h (k, v) (mem_pairs.mpr ⟨s, hs⟩)
  · rintro h ⟨k', v⟩ hmem
    obtain ⟨s, hs⟩ := mem_pairs.mp hmem
    simp only [decide_eq_true_eq]
    rintro rfl
    exact h s v hs

theorem exists_live_of_denote {T : Table K V} {k : K} {v : V}
    (h : denote T k = some v) : ∃ s : ℕ, T[s]? = some (.live k v) := by
  rw [denote, assoc, Option.map_eq_some_iff] at h
  obtain ⟨⟨k', v'⟩, hfind, rfl⟩ := h
  have hkey : k' = k := by simpa using List.find?_some hfind
  subst hkey
  exact mem_pairs.mp (List.mem_of_find?_eq_some hfind)

/-- With distinct live keys the map holds exactly the live pairs. -/
theorem denote_eq_some_iff {T : Table K V} (hT : Distinct T) {k : K} {v : V} :
    denote T k = some v ↔ ∃ s : ℕ, T[s]? = some (.live k v) := by
  refine ⟨exists_live_of_denote, ?_⟩
  rintro ⟨s, hs⟩
  cases hd : denote T k with
  | none => exact absurd hs (denote_eq_none_iff.mp hd s v)
  | some w =>
      obtain ⟨t, ht⟩ := exists_live_of_denote hd
      have hst : s = t := hT hs ht
      subst hst
      rw [hs] at ht
      simp_all

/-- Writing the pair `(k, v)` at a slot that is the only one that may hold
`k`, and that holds no other key, updates the map at `k`. -/
theorem denote_place {T : Table K V} (hT : Distinct T) {s : ℕ} {k : K} {v : V}
    (hs : s < T.length) (honly : ∀ t w, T[t]? = some (.live k w) → t = s)
    (hhere : ∀ k' w, T[s]? = some (.live k' w) → k' = k) (hT' : Distinct (T.set s (.live k v))) :
    denote (T.set s (.live k v)) = Function.update (denote T) k (some v) := by
  funext k'
  by_cases hk : k' = k
  · subst hk
    rw [Function.update_self, denote_eq_some_iff hT']
    exact ⟨s, getElem?_set_of_eq hs⟩
  · rw [Function.update_of_ne hk]
    ext w
    rw [denote_eq_some_iff hT', denote_eq_some_iff hT]
    constructor
    · rintro ⟨t, ht⟩
      rcases getElem?_set_eq_some ht with ⟨_, heq⟩ | ⟨_, ht'⟩
      · simp only [Slot.live.injEq] at heq
        exact absurd heq.1 hk
      · exact ⟨t, ht'⟩
    · rintro ⟨t, ht⟩
      refine ⟨t, ?_⟩
      have hts : t ≠ s := by
        rintro rfl
        exact hk (hhere k' w ht)
      rw [getElem?_set_of_ne hts]
      exact ht

/-- Replacing the live slot of `k` by a tombstone removes `k` from the map. -/
theorem denote_erase {T : Table K V} (hT : Distinct T) {s : ℕ} {k : K} {v : V}
    (hs : T[s]? = some (.live k v)) (hT' : Distinct (T.set s .tombstone)) :
    denote (T.set s .tombstone) = Function.update (denote T) k none := by
  funext k'
  by_cases hk : k' = k
  · subst hk
    rw [Function.update_self, denote_eq_none_iff]
    intro t w ht
    rcases getElem?_set_eq_some ht with ⟨_, heq⟩ | ⟨hne, ht'⟩
    · exact absurd heq (by simp)
    · exact hne (hT ht' hs)
  · rw [Function.update_of_ne hk]
    ext w
    rw [denote_eq_some_iff hT', denote_eq_some_iff hT]
    constructor
    · rintro ⟨t, ht⟩
      rcases getElem?_set_eq_some ht with ⟨_, heq⟩ | ⟨_, ht'⟩
      · exact absurd heq (by simp)
      · exact ⟨t, ht'⟩
    · rintro ⟨t, ht⟩
      refine ⟨t, ?_⟩
      have hts : t ≠ s := by
        rintro rfl
        rw [hs] at ht
        simp only [Option.some.injEq, Slot.live.injEq] at ht
        exact hk ht.1.symm
      rw [getElem?_set_of_ne hts]
      exact ht

theorem denote_replicate (n : ℕ) (k : K) :
    denote (List.replicate n (Slot.empty : Slot K V)) k = none := by
  rw [denote_eq_none_iff]
  intro s v hs
  simp [List.getElem?_replicate] at hs

end Denote

/-! ### Writing a slot preserves the invariants -/

/-- Placing `k` at a slot that is the only one that may already hold it. -/
theorem distinct_place {T : Table K V} (hT : Distinct T) {s : ℕ} {k : K} {v : V}
    (honly : ∀ t w, T[t]? = some (.live k w) → t = s) :
    Distinct (T.set s (.live k v)) := by
  intro a b k' v' w' ha hb
  rcases getElem?_set_eq_some ha with ⟨rfl, hx⟩ | ⟨_, ha'⟩ <;>
    rcases getElem?_set_eq_some hb with ⟨rfl, hy⟩ | ⟨_, hb'⟩
  · rfl
  · simp only [Slot.live.injEq] at hx
    obtain ⟨rfl, rfl⟩ := hx
    exact (honly b _ hb').symm
  · simp only [Slot.live.injEq] at hy
    obtain ⟨rfl, rfl⟩ := hy
    exact honly a _ ha'
  · exact hT ha' hb'

theorem distinct_erase {T : Table K V} (hT : Distinct T) (s : ℕ) :
    Distinct (T.set s .tombstone) := by
  intro a b k' v' w' ha hb
  rcases getElem?_set_eq_some ha with ⟨_, hx⟩ | ⟨_, ha'⟩
  · exact absurd hx (by simp)
  · rcases getElem?_set_eq_some hb with ⟨_, hy⟩ | ⟨_, hb'⟩
    · exact absurd hy (by simp)
    · exact hT ha' hb'

/-- Writing anything but `empty` at a slot cannot cut a probe path, so only the
path of the key just written has to be checked. -/
theorem reachable_set {home : K → ℕ} {T : Table K V} (hT : Reachable home T)
    {s : ℕ} {x : Slot K V} (hx : x ≠ .empty)
    (hpath : ∀ k v, x = .live k v →
      ∀ t, Precedes T (home k) t s → T[t]? ≠ some .empty) :
    Reachable home (T.set s x) := by
  intro u k v hu t hprec
  rw [precedes_set] at hprec
  intro hempty
  rcases getElem?_set_eq_some hempty with ⟨_, heq⟩ | ⟨_, hempty'⟩
  · exact hx heq.symm
  · rcases getElem?_set_eq_some hu with ⟨rfl, heq⟩ | ⟨_, hu'⟩
    · exact hpath k v heq.symm t hprec hempty'
    · exact hT hu' t hprec hempty'

theorem noTombstone_place {T : Table K V} (hT : NoTombstone T) (s : ℕ) (k : K)
    (v : V) : NoTombstone (T.set s (.live k v)) := by
  intro t ht
  rcases getElem?_set_eq_some ht with ⟨_, heq⟩ | ⟨_, ht'⟩
  · exact absurd heq (by simp)
  · exact hT t ht'

/-- Writing a live pair over a slot changes the live count by the slot's own
liveness. -/
theorem liveCount_place {T : Table K V} {s : ℕ} {x : Slot K V} (k : K) (v : V)
    (hs : T[s]? = some x) :
    liveCount (T.set s (.live k v)) =
      if x.isLive then liveCount T else liveCount T + 1 := by
  obtain ⟨hlt, hx⟩ := List.getElem?_eq_some_iff.mp hs
  have hpos : x.isLive = true → 0 < T.countP Slot.isLive := by
    intro h
    exact List.countP_pos_iff.mpr ⟨x, hx ▸ List.getElem_mem hlt, h⟩
  rw [liveCount, List.countP_set hlt, hx, Slot.isLive_live, liveCount]
  by_cases h : x.isLive = true
  · have := hpos h
    simp only [h, if_true]
    omega
  · simp [h]

theorem liveCount_erase {T : Table K V} {s : ℕ} {k : K} {v : V}
    (hs : T[s]? = some (.live k v)) :
    liveCount (T.set s .tombstone) = liveCount T - 1 := by
  obtain ⟨hlt, hx⟩ := List.getElem?_eq_some_iff.mp hs
  rw [liveCount, List.countP_set hlt, hx]
  simp [liveCount]

/-! ### Searching -/

section Find

variable [DecidableEq K]

/-- The slots at which the search for `k` stops: it does not walk past
tombstones. -/
def Slot.stops (k : K) : Slot K V → Bool
  | .empty => true
  | .tombstone => true
  | .live k' _ => k' = k

/-- The slot the search for `k` ends in. -/
def find (home : K → ℕ) (T : Table K V) (k : K) : Option ℕ :=
  search (fun s => (T[s]?.map (Slot.stops k)).getD true) (home k) T.length

private theorem stops_eq_false {T : Table K V} {k : K} {t : ℕ}
    (ht : t < T.length) :
    (T[t]?.map (Slot.stops k)).getD true = false ↔
      ∃ k' v, T[t]? = some (.live k' v) ∧ k' ≠ k := by
  rw [List.getElem?_eq_getElem ht]
  cases h : T[t] with
  | empty => simp [Slot.stops]
  | tombstone => simp [Slot.stops]
  | live k' v => simp [Slot.stops]

/-- **The search, spelled out.**  It ends in the first slot of the probe order
that is not a live slot of another key. -/
theorem find_eq_some_iff {home : K → ℕ} {T : Table K V} {k : K} {s : ℕ} :
    find home T k = some s ↔
      s < T.length ∧ (∀ k' v, T[s]? = some (.live k' v) → k' = k) ∧
        ∀ t, Precedes T (home k) t s →
          ∃ k' v, T[t]? = some (.live k' v) ∧ k' ≠ k := by
  rw [find, search_eq_some_iff]
  refine and_congr_right fun hs => and_congr ?_ ?_
  · rw [← Bool.not_eq_false, stops_eq_false hs]
    push Not
    exact Iff.rfl
  · constructor
    · intro h t ht
      exact (stops_eq_false ht.1).mp (h t ht.1 ht.2)
    · intro h t hlt hrank
      exact (stops_eq_false hlt).mpr (h t ⟨hlt, hrank⟩)

/-- A live key that no tombstone hides is found in its slot. -/
theorem find_of_live {home : K → ℕ} {T : Table K V} (hT : WellFormed home T)
    {k : K} (hk : Unblocked home T k) {s : ℕ} {v : V}
    (hs : T[s]? = some (.live k v)) : find home T k = some s := by
  rw [find_eq_some_iff]
  refine ⟨lt_length_of_live hs, ?_, ?_⟩
  · intro k' v' h
    rw [hs] at h
    simp_all
  · intro t ht
    cases hx : T[t]? with
    | none => exact absurd ht.1 (by simpa using hx)
    | some x =>
        cases x with
        | empty => exact absurd hx (hT.reachable hs t ht)
        | tombstone => exact absurd hx (hk hs t ht)
        | live k' v' =>
            refine ⟨k', v', rfl, ?_⟩
            rintro rfl
            have hst : s = t := hT.distinct hs hx
            subst hst
            exact absurd ht.2 (Nat.lt_irrefl _)

/-- The search for an unblocked key ends in a live slot exactly when the key
is in the map, and that slot holds its value. -/
theorem find_denote {home : K → ℕ} {T : Table K V} (hT : WellFormed home T)
    {k : K} (hk : Unblocked home T k) :
    (find home T k >>= fun s => T[s]? >>= Slot.pair?) =
      (denote T k).map (Prod.mk k) := by
  cases hd : denote T k with
  | some v =>
      obtain ⟨s, hs⟩ := exists_live_of_denote hd
      simp [find_of_live hT hk hs, hs, Slot.pair?]
  | none =>
      rw [denote_eq_none_iff] at hd
      cases hf : find home T k with
      | none => rfl
      | some s =>
          obtain ⟨hlt, hkey, _⟩ := find_eq_some_iff.mp hf
          cases hx : T[s]? with
          | none => simp [hx]
          | some x =>
              cases x with
              | empty => simp [hx, Slot.pair?]
              | tombstone => simp [hx, Slot.pair?]
              | live k' v =>
                  have := hkey k' v hx
                  subst this
                  exact absurd hx (hd s v)

/-- As long as some slot is not live the search ends somewhere. -/
theorem find_isSome (home : K → ℕ) {T : Table K V} (k : K)
    (h : liveCount T < T.length) : ∃ s, find home T k = some s := by
  obtain ⟨x, hx, hlive⟩ : ∃ x ∈ T, x.isLive = false := by
    by_contra hcon
    push Not at hcon
    have : T.countP Slot.isLive = T.length :=
      List.countP_eq_length.mpr fun x hx => by simpa using hcon x hx
    rw [liveCount] at h
    omega
  obtain ⟨t, ht⟩ := List.mem_iff_getElem?.mp hx
  refine search_isSome (t := t) (lt_length_of_live ht) ?_
  rw [ht]
  cases x with
  | empty => rfl
  | tombstone => rfl
  | live k' v => simp at hlive

/-- **Inserting through the search.**  Writing `(k, v)` at the slot the search
ends in updates the map at `k` and keeps the invariant. -/
theorem place_find {home : K → ℕ} {T : Table K V} (hT : WellFormed home T)
    {k : K} (hk : Unblocked home T k) {s : ℕ} (v : V)
    (hs : find home T k = some s) :
    WellFormed home (T.set s (.live k v)) ∧
      denote (T.set s (.live k v)) = Function.update (denote T) k (some v) := by
  obtain ⟨hlt, hkey, hpath⟩ := find_eq_some_iff.mp hs
  have honly : ∀ t w, T[t]? = some (.live k w) → t = s := by
    intro t w ht
    have hf := find_of_live hT hk ht
    rw [hs] at hf
    simpa using hf.symm
  have hdistinct := distinct_place (v := v) hT.distinct honly
  refine ⟨⟨hdistinct, reachable_set hT.reachable (by simp) ?_⟩,
    denote_place hT.distinct hlt honly hkey hdistinct⟩
  intro k' v' heq t ht hempty
  simp only [Slot.live.injEq] at heq
  obtain ⟨rfl, rfl⟩ := heq
  obtain ⟨k'', v'', hlive, _⟩ := hpath t ht
  rw [hempty] at hlive
  simp at hlive

/-- Erasing a live slot removes its key and keeps the invariant. -/
theorem erase_live {home : K → ℕ} {T : Table K V} (hT : WellFormed home T)
    {s : ℕ} {k : K} {v : V} (hs : T[s]? = some (.live k v)) :
    WellFormed home (T.set s .tombstone) ∧
      denote (T.set s .tombstone) = Function.update (denote T) k none := by
  have hdistinct := distinct_erase hT.distinct s
  exact ⟨⟨hdistinct, reachable_set hT.reachable (by simp) (by simp)⟩,
    denote_erase hT.distinct hs hdistinct⟩

end Find

/-! ### Packed tables

A table whose live slots are a prefix, in the order of a list of pairs, and
whose other slots are empty. -/

/-- The live pairs `ps` in the first slots, followed by `r` empty slots. -/
def packed (ps : List (K × V)) (r : ℕ) : Table K V :=
  ps.map (fun p => Slot.live p.1 p.2) ++ List.replicate r .empty

@[simp] theorem length_packed (ps : List (K × V)) (r : ℕ) :
    (packed ps r).length = ps.length + r := by
  simp [packed]

@[simp] theorem pairs_packed (ps : List (K × V)) (r : ℕ) :
    pairs (packed ps r) = ps := by
  have hlive : (ps.map fun p => Slot.live p.1 p.2).filterMap Slot.pair? = ps := by
    rw [List.filterMap_map]
    exact List.filterMap_some
  have hempty : (List.replicate r (Slot.empty : Slot K V)).filterMap Slot.pair? = [] := by
    rw [List.filterMap_eq_nil_iff]
    intro x hx
    rw [List.eq_of_mem_replicate hx]
    rfl
  rw [pairs, packed, List.filterMap_append, hlive, hempty, List.append_nil]

theorem packed_getElem?_of_lt {ps : List (K × V)} {r s : ℕ} (hs : s < ps.length) :
    (packed ps r)[s]? = some (.live ps[s].1 ps[s].2) := by
  rw [packed, List.getElem?_append_left (by simpa using hs)]
  simp [hs]

theorem packed_getElem?_of_ge {ps : List (K × V)} {r s : ℕ} (hs : ps.length ≤ s)
    (hlt : s < ps.length + r) : (packed ps r)[s]? = some .empty := by
  rw [packed, List.getElem?_append_right (by simpa using hs)]
  simp only [List.length_map, List.getElem?_replicate]
  rw [if_pos (by omega)]

/-- A live slot of a packed table holds the pair of its position. -/
theorem packed_live {ps : List (K × V)} {r s : ℕ} {k : K} {v : V}
    (h : (packed ps r)[s]? = some (.live k v)) : ps[s]? = some (k, v) := by
  have hlt := lt_length_of_live h
  rw [length_packed] at hlt
  by_cases hs : s < ps.length
  · rw [packed_getElem?_of_lt hs] at h
    simp only [Option.some.injEq, Slot.live.injEq] at h
    rw [List.getElem?_eq_getElem hs, ← h.1, ← h.2]
  · rw [packed_getElem?_of_ge (by omega) hlt] at h
    exact absurd h (by simp)

theorem noTombstone_packed (ps : List (K × V)) (r : ℕ) :
    NoTombstone (packed ps r) := by
  intro s h
  have hlt := lt_length_of_live h
  rw [length_packed] at hlt
  by_cases hs : s < ps.length
  · rw [packed_getElem?_of_lt hs] at h
    exact absurd h (by simp)
  · rw [packed_getElem?_of_ge (by omega) hlt] at h
    exact absurd h (by simp)

/-- In a table of `cap` slots whose keys are packed, the probe path of each key
stays within the packed part until it reaches the key's slot. -/
def PackedReachable (home : K → ℕ) (ks : List K) (cap : ℕ) : Prop :=
  ∀ i (h : i < ks.length), ∀ t < cap,
    rank (home ks[i]) cap t < rank (home ks[i]) cap i → t < ks.length

instance (home : K → ℕ) (ks : List K) (cap : ℕ) :
    Decidable (PackedReachable home ks cap) :=
  inferInstanceAs (Decidable (∀ i (_ : i < ks.length), ∀ t < cap, _ → _))

/-- A packed table with distinct keys is well formed exactly as far as its probe
paths are. -/
theorem wellFormed_packed {home : K → ℕ} {ps : List (K × V)} {r : ℕ}
    (hnodup : (ps.map Prod.fst).Nodup)
    (hreach : PackedReachable home (ps.map Prod.fst) (ps.length + r)) :
    WellFormed home (packed ps r) := by
  constructor
  · intro s t k v w hs ht
    have hs' := packed_live hs
    have ht' := packed_live ht
    obtain ⟨hslt, hsk⟩ := List.getElem?_eq_some_iff.mp hs'
    obtain ⟨htlt, htk⟩ := List.getElem?_eq_some_iff.mp ht'
    have hslt' : s < (ps.map Prod.fst).length := by simpa using hslt
    have htlt' : t < (ps.map Prod.fst).length := by simpa using htlt
    have hkeys : (ps.map Prod.fst)[s] = (ps.map Prod.fst)[t] := by
      rw [List.getElem_map, List.getElem_map, hsk, htk]
    exact hnodup.getElem_inj_iff.mp hkeys
  · intro s k v hs t ht
    obtain ⟨hslt, hsk⟩ := List.getElem?_eq_some_iff.mp (packed_live hs)
    have hlt := hreach s (by simpa using hslt) t (by simpa using ht.1)
    rw [List.getElem_map, hsk] at hlt
    rw [packed_getElem?_of_lt (by simpa using hlt (by simpa using ht.2))]
    simp

end OpenAddressing
end BreadLang
