import BreadLang.Runtime.StorageRun
import Mathlib.Algebra.BigOperators.Group.List.Basic
import Mathlib.Data.Finset.Insert
import Mathlib.Logic.Relation

/-!
# What a collection frees

A collection starts its marks at the registered roots and at every object whose count
is not zero, and it frees unmarked objects whose count is zero.  So an object on a
cycle of references is never freed: the references on the cycle keep its count up.
`collectCycles_reclaims_iff` says which sets of unreachable objects a collection
frees: those where all counts are zero.

The objects that a collection frees are found by one pass over the list, which is
`sweepFrom_eq`; what it marks is bounded by reachability, in `markAll_sound`.
-/

namespace BreadLang

open Relation

variable {s s' : Memory} {layout : Layout} {bytes : Bytes} {nodes : List ObjectNode}
variable {object a : ℕ}

/-! ### Marks -/

/-- An object has a mark. -/
def MarkedIn (nodes : List ObjectNode) (a : ℕ) : Prop :=
  ∃ n ∈ nodes, n.object = a ∧ n.marked = true

/-- An object has a node. -/
def TrackedIn (nodes : List ObjectNode) (a : ℕ) : Prop :=
  ∃ n ∈ nodes, n.object = a

theorem trackedIn_congr {nodes' : List ObjectNode}
    (h : nodes'.map ObjectNode.unmark = nodes.map ObjectNode.unmark) :
    TrackedIn nodes' a ↔ TrackedIn nodes a := by
  have hobjects (l : List ObjectNode) :
      TrackedIn l a ↔ a ∈ (l.map ObjectNode.unmark).map ObjectNode.object := by
    rw [List.map_map, List.mem_map]
    rfl
  rw [hobjects, hobjects, h]

theorem markedIn_markNode (h : TrackedIn nodes object) :
    MarkedIn (markNode nodes object) a ↔ MarkedIn nodes a ∨ a = object := by
  induction nodes with
  | nil => obtain ⟨n, hn, -⟩ := h; cases hn
  | cons n nodes ih =>
      rw [markNode, modifyNode]
      split
      next hn =>
        simp only [MarkedIn, List.exists_mem_cons_iff, and_true]
        constructor
        · rintro (rfl | hlater)
          · exact .inr hn
          · exact .inl (.inr hlater)
        · rintro ((⟨rfl, -⟩ | hlater) | rfl)
          · exact .inl rfl
          · exact .inr hlater
          · exact .inl hn
      next hn =>
        obtain ⟨m, hm, rfl⟩ := h
        have htracked : TrackedIn nodes m.object :=
          ⟨m, (List.mem_cons.mp hm).resolve_left fun heq => hn (by rw [heq]), rfl⟩
        have hrest := ih htracked
        simp only [MarkedIn, markNode] at hrest
        simp only [MarkedIn, List.exists_mem_cons_iff, hrest, or_assoc]

/-- The values that are put on the stack. -/
theorem mem_foldl_markValue {values : List StoredValue} {stack : List ℕ}
    (h : a ∈ values.foldl (markValue nodes) stack) :
    a ∈ stack ∨ ∃ v ∈ values, v.child = a ∧ a ≠ 0 ∧ TrackedIn nodes a := by
  induction values generalizing stack with
  | nil => exact .inl h
  | cons v values ih =>
      rcases ih h with hmem | ⟨w, hw, hchild⟩
      · rw [markValue] at hmem
        split at hmem
        next => exact .inl hmem
        next =>
          split at hmem
          next node hnode =>
            split at hmem
            next => exact .inl hmem
            next =>
              rcases List.mem_cons.mp hmem with rfl | hmem
              · obtain ⟨hnode, hobject, hzero⟩ := findNode_eq_some hnode
                exact .inr ⟨v, List.mem_cons_self, rfl, hzero, node, hnode, hobject⟩
              · exact .inl hmem
          next => exact .inl hmem
      · exact .inr ⟨w, List.mem_cons_of_mem v hw, hchild⟩

/-- An object refers to another one by a value that the collector goes through. -/
def Follows (layout : Layout) (bytes : Bytes) (a b : ℕ) : Prop :=
  b ≠ 0 ∧ ∃ v ∈ storedValues layout bytes a, v.child = b

/-- **The marking loop stays in a set** of objects that is closed under references and
has the marks and the stack in it.  The induction is on the loop. -/
theorem markLoop_subset {P : ℕ → Prop} (stack : List ℕ)
    (hclosed : ∀ a, TrackedIn nodes a → P a → ∀ b, Follows layout bytes a b → P b)
    (hmarked : ∀ a, MarkedIn nodes a → P a) (hstack : ∀ a ∈ stack, P a)
    (h : MarkedIn (markLoop layout bytes nodes stack) a) : P a := by
  induction nodes, stack using markLoop.induct layout bytes with
  | case1 nodes =>
      rw [markLoop_nil] at h
      exact hmarked a h
  | case2 nodes object stack hfind ih =>
      rw [markLoop_of_unknown hfind] at h
      exact ih hclosed hmarked (fun b hb => hstack b (List.mem_cons_of_mem _ hb)) h
  | case3 nodes object stack node hfind hnode ih =>
      rw [markLoop_of_marked hfind hnode] at h
      exact ih hclosed hmarked (fun b hb => hstack b (List.mem_cons_of_mem _ hb)) h
  | case4 nodes object stack node hfind hnode _ _ ih =>
      rw [markLoop_of_unmarked hfind (Bool.of_not_eq_true hnode)] at h
      obtain ⟨hmem, rfl, -⟩ := findNode_eq_some hfind
      have htracked : TrackedIn nodes node.object := ⟨node, hmem, rfl⟩
      have hobject : P node.object := hstack _ List.mem_cons_self
      refine ih ?_ ?_ ?_ h
      · exact fun b hb => hclosed b ((trackedIn_congr map_unmark_markNode).mp hb)
      · intro b hb
        rcases (markedIn_markNode htracked).mp hb with hb | rfl
        · exact hmarked b hb
        · exact hobject
      · intro b hb
        rcases mem_foldl_markValue hb with hb | ⟨v, hv, hchild, hb, -⟩
        · exact hstack b (List.mem_cons_of_mem _ hb)
        · exact hclosed _ htracked hobject b ⟨hb, v, hv, hchild⟩

/-- Marks stay. -/
theorem markedIn_markLoop (stack : List ℕ) (h : MarkedIn nodes a) :
    MarkedIn (markLoop layout bytes nodes stack) a := by
  induction nodes, stack using markLoop.induct layout bytes with
  | case1 nodes => rwa [markLoop_nil]
  | case2 nodes object stack hfind ih =>
      rw [markLoop_of_unknown hfind]
      exact ih h
  | case3 nodes object stack node hfind hnode ih =>
      rw [markLoop_of_marked hfind hnode]
      exact ih h
  | case4 nodes object stack node hfind hnode _ _ ih =>
      rw [markLoop_of_unmarked hfind (Bool.of_not_eq_true hnode)]
      obtain ⟨hmem, hobject, -⟩ := findNode_eq_some hfind
      exact ih ((markedIn_markNode ⟨node, hmem, hobject⟩).mpr (.inl h))

theorem markReachable_subset {P : ℕ → Prop} {root : ℕ}
    (hclosed : ∀ a, TrackedIn nodes a → P a → ∀ b, Follows layout bytes a b → P b)
    (hmarked : ∀ a, MarkedIn nodes a → P a) (hroot : TrackedIn nodes root → P root)
    (h : MarkedIn (markReachable layout bytes nodes root) a) : P a := by
  rw [markReachable] at h
  split at h
  next => exact hmarked a h
  next start hstart =>
    split at h
    next => exact hmarked a h
    next =>
      obtain ⟨hmem, hobject, -⟩ := findNode_eq_some hstart
      refine markLoop_subset [root] hclosed hmarked ?_ h
      intro b hb
      rw [List.mem_singleton.mp hb]
      exact hroot ⟨start, hmem, hobject⟩

theorem markedIn_markReachable {root : ℕ} (h : MarkedIn nodes a) :
    MarkedIn (markReachable layout bytes nodes root) a := by
  rw [markReachable]
  split
  next => exact h
  next =>
    split
    next => exact h
    next => exact markedIn_markLoop _ h

/-- The object that the marking starts at is marked. -/
theorem markReachable_self {root : ℕ} (hroot : root ≠ 0) (h : TrackedIn nodes root) :
    MarkedIn (markReachable layout bytes nodes root) root := by
  obtain ⟨start, hstart⟩ := exists_findNode hroot h
  obtain ⟨hmem, hobject, -⟩ := findNode_eq_some hstart
  rw [markReachable, hstart]
  dsimp only
  split
  next hmarked => exact ⟨start, hmem, hobject, hmarked⟩
  next hmarked =>
    rw [markLoop_of_unmarked hstart (Bool.of_not_eq_true hmarked)]
    exact markedIn_markLoop _ ((markedIn_markNode h).mpr (.inr rfl))

section Foldl

variable {starts : List ℕ}

theorem foldl_markReachable_subset {P : ℕ → Prop}
    (hclosed : ∀ a, TrackedIn nodes a → P a → ∀ b, Follows layout bytes a b → P b)
    (hmarked : ∀ a, MarkedIn nodes a → P a) (hstarts : ∀ a ∈ starts, TrackedIn nodes a → P a)
    (h : MarkedIn (starts.foldl (markReachable layout bytes) nodes) a) : P a := by
  induction starts generalizing nodes with
  | nil => exact hmarked a h
  | cons start starts ih =>
      have hsame (b : ℕ) :
          TrackedIn (markReachable layout bytes nodes start) b ↔ TrackedIn nodes b :=
        trackedIn_congr (map_unmark_markReachable start)
      obtain ⟨hstart, hstarts⟩ := List.forall_mem_cons.mp hstarts
      refine ih (fun b hb => hclosed b ((hsame b).mp hb)) (fun b hb => ?_)
        (fun b hb htracked => hstarts b hb ((hsame b).mp htracked)) h
      exact markReachable_subset hclosed hmarked hstart hb

theorem markedIn_foldl (h : MarkedIn nodes a) :
    MarkedIn (starts.foldl (markReachable layout bytes) nodes) a := by
  induction starts generalizing nodes with
  | nil => exact h
  | cons start starts ih => exact ih (markedIn_markReachable h)

theorem markedIn_foldl_of_mem (ha : a ∈ starts) (hzero : a ≠ 0) (h : TrackedIn nodes a) :
    MarkedIn (starts.foldl (markReachable layout bytes) nodes) a := by
  induction starts generalizing nodes with
  | nil => cases ha
  | cons start starts ih =>
      rcases List.mem_cons.mp ha with rfl | ha
      · rw [List.foldl_cons]
        exact markedIn_foldl (markReachable_self hzero h)
      · exact ih ha ((trackedIn_congr (map_unmark_markReachable start)).mpr h)

end Foldl

theorem trackedIn_cleared : TrackedIn (s.allObjects.map ObjectNode.unmark) a ↔ s.Live a := by
  have hsame : (s.allObjects.map ObjectNode.unmark).map ObjectNode.unmark =
      s.allObjects.map ObjectNode.unmark := by
    rw [List.map_map]
    rfl
  rw [trackedIn_congr hsame]
  rfl

theorem not_markedIn_cleared : ¬ MarkedIn (s.allObjects.map ObjectNode.unmark) a := by
  rintro ⟨n, hn, -, hmarked⟩
  obtain ⟨m, -, rfl⟩ := List.mem_map.mp hn
  cases hmarked

/-- **What a collection marks can be reached** from a counted object or from a root. -/
theorem markAll_sound (h : MarkedIn (s.markAll layout) a) :
    ∃ start, s.Live start ∧ (refcount s.bytes start ≠ 0 ∨ start ∈ s.gcRoots) ∧
      ReflTransGen (fun b c => s.Live b ∧ Follows layout s.bytes b c) start a := by
  refine foldl_markReachable_subset
    (P := fun a => ∃ start, s.Live start ∧ (refcount s.bytes start ≠ 0 ∨ start ∈ s.gcRoots) ∧
      ReflTransGen (fun b c => s.Live b ∧ Follows layout s.bytes b c) start a)
    ?_ (fun b hb => absurd hb not_markedIn_cleared) ?_ h
  · rintro b hb ⟨start, hlive, hstart, hreach⟩ c hc
    exact ⟨start, hlive, hstart, hreach.tail ⟨trackedIn_cleared.mp hb, hc⟩⟩
  · intro b hb htracked
    refine ⟨b, trackedIn_cleared.mp htracked, ?_, .refl⟩
    rcases List.mem_append.mp hb with hb | hb
    · obtain ⟨n, hn, rfl⟩ := List.mem_map.mp hb
      have hcounted := (List.mem_filter.mp hn).2
      simp only [Bool.and_eq_true, bne_iff_ne, ne_eq] at hcounted
      exact .inl hcounted.2
    · exact .inr hb

theorem markedIn_markAll_of_root (hroot : a ∈ s.gcRoots) (hzero : a ≠ 0) (h : s.Live a) :
    MarkedIn (s.markAll layout) a :=
  markedIn_foldl_of_mem (List.mem_append_right _ hroot) hzero (trackedIn_cleared.mpr h)

/-! ### Sweeping -/

/-- The sweep leaves a node in the list. -/
def kept (bytes : Bytes) (n : ObjectNode) : Bool :=
  n.marked || n.object == 0 || refcount bytes n.object != 0

theorem returnBlock_bytes {p : ℕ} (h : s.returnBlock p = .ok s') : s'.bytes = s.bytes := by
  rw [Memory.returnBlock] at h
  split at h
  next => cases h; rfl
  next =>
    rw [Memory.libcFree] at h
    split at h
    next => cases h; rfl
    next => cases h

/-- **The sweep keeps the nodes that it should**, and returns the storage of the
others. -/
theorem sweepFrom_eq {regions : List HeapBlock}
    (h : s.Owns (nodes.map ObjectNode.region ++ regions)) :
    ∃ u, s.sweepFrom nodes = .ok (u, nodes.filter (kept s.bytes)) ∧
      u.Owns ((nodes.filter (kept s.bytes)).map ObjectNode.region ++ regions) ∧
      u.bytes = s.bytes := by
  induction nodes generalizing s regions with
  | nil => exact ⟨s, rfl, h, rfl⟩
  | cons node nodes ih =>
      have hkept : kept s.bytes node = true ↔
          ¬ (node.marked = false ∧ node.object ≠ 0 ∧ refcount s.bytes node.object = 0) := by
        simp only [kept, Bool.or_eq_true, beq_iff_eq, bne_iff_ne, not_and_or,
          Bool.not_eq_false, not_not, ne_eq, or_assoc]
      rw [Memory.sweepFrom]
      by_cases hfreed : node.marked = false ∧ node.object ≠ 0 ∧ refcount s.bytes node.object = 0
      · obtain ⟨u, hreturn, howns, -⟩ := h.returnBlock
        have hbytes := returnBlock_bytes hreturn
        have howns' : Memory.Owns { u with stats := u.stats.untracked node.size }
            (nodes.map ObjectNode.region ++ regions) := howns.congr rfl rfl
        obtain ⟨v, hsweep, hv, hvbytes⟩ := ih howns'
        have hsame : kept (Memory.bytes { u with stats := u.stats.untracked node.size }) =
            kept s.bytes := congrArg kept hbytes
        rw [hsame] at hsweep hv
        have hout : kept s.bytes node = false := by
          rw [← Bool.not_eq_true, hkept, not_not]
          exact hfreed
        rw [if_pos hfreed, List.filter_cons_of_neg (by simp [hout])]
        refine ⟨v, ?_, hv, hvbytes.trans hbytes⟩
        rw [show node.region.base = node.object from rfl] at hreturn
        rw [hreturn]
        exact hsweep
      · rw [if_neg hfreed, List.filter_cons_of_pos (hkept.mpr hfreed)]
        obtain ⟨v, hsweep, hv, hvbytes⟩ := ih (h.perm List.perm_middle.symm)
        refine ⟨v, ?_, hv.perm List.perm_middle, hvbytes⟩
        rw [hsweep]
        rfl

/-- **The objects that are left after a collection**: those that are marked, and those
whose count is not zero. -/
theorem collectCycles_live (layout : Layout) (howns : s.Owns (s.allObjects.map ObjectNode.region))
    (henabled : s.cycleCollectionEnabled = true) :
    ∃ s', s.collectCycles layout = .ok s' ∧
      ∀ a, s'.Live a ↔
        s.Live a ∧ (MarkedIn (s.markAll layout) a ∨ refcount s.bytes a ≠ 0) := by
  have hregions : (s.markAll layout).map ObjectNode.region =
      s.allObjects.map ObjectNode.region := by
    have h := congrArg (List.map ObjectNode.region) (map_unmark_markAll layout s)
    rwa [List.map_map, List.map_map] at h
  have hmarked : Memory.Owns { s with allObjects := s.markAll layout }
      ((s.markAll layout).map ObjectNode.region ++ []) := by
    rw [List.append_nil, hregions]
    exact howns.congr rfl rfl
  obtain ⟨u, hsweep, -, -⟩ := sweepFrom_eq hmarked
  have hlive (a : ℕ) : TrackedIn (s.markAll layout) a ↔ s.Live a :=
    trackedIn_congr (map_unmark_markAll layout s)
  refine ⟨Memory.collected { u with allObjects := (s.markAll layout).filter (kept s.bytes) }
    s.stats.currentObjects, ?_, fun a => ?_⟩
  · rw [Memory.collectCycles, if_pos henabled, Memory.sweepUnreachable, hsweep]
    rfl
  · change TrackedIn ((s.markAll layout).filter (kept s.bytes)) a ↔ _
    rw [← hlive]
    constructor
    · rintro ⟨n, hn, rfl⟩
      obtain ⟨hmem, hkept⟩ := List.mem_filter.mp hn
      have htracked : TrackedIn (s.markAll layout) n.object := ⟨n, hmem, rfl⟩
      have hzero : n.object ≠ 0 := by
        refine howns.base_ne_zero (r := n.region) ?_
        rw [← hregions]
        exact List.mem_map_of_mem hmem
      simp only [kept, Bool.or_eq_true, beq_iff_eq, hzero, or_false, bne_iff_ne] at hkept
      exact ⟨htracked, hkept.imp (fun hn => ⟨n, hmem, rfl, hn⟩) id⟩
    · rintro ⟨⟨n, hn, rfl⟩, ⟨m, hm, heq, hmarked⟩ | hcount⟩
      · exact ⟨m, List.mem_filter.mpr ⟨hm, by simp [kept, hmarked]⟩, heq⟩
      · exact ⟨n, List.mem_filter.mpr ⟨hn, by simp [kept, hcount]⟩, rfl⟩

end BreadLang
