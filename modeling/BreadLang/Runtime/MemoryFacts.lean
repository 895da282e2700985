import BreadLang.Runtime.Memory

/-!
# Facts about the memory manager

What the operations find in the list of objects, and what they leave alone: the pool
and the C heap have no part in the list and the counters, and marking changes the
marks only.
-/

namespace BreadLang

variable {s s' : Memory} {layout : Layout} {bytes : Bytes} {nodes : List ObjectNode}
variable {object p q : ℕ}

/-! ### The list of objects -/

theorem findNode_eq_some {node : ObjectNode} (h : findNode nodes object = some node) :
    node ∈ nodes ∧ node.object = object ∧ object ≠ 0 := by
  rw [findNode] at h
  split at h
  next => cases h
  next hobject =>
    exact ⟨List.mem_of_find?_eq_some h, by simpa using List.find?_some h, hobject⟩

theorem exists_findNode (hobject : object ≠ 0) (h : ∃ n ∈ nodes, n.object = object) :
    ∃ node, findNode nodes object = some node := by
  rw [findNode, if_neg hobject]
  obtain ⟨n, hn, rfl⟩ := h
  exact Option.isSome_iff_exists.mp (List.find?_isSome.mpr ⟨n, hn, by simp⟩)

/-- The node that is found stands in the list. -/
theorem split_of_findNode {node : ObjectNode} (h : findNode nodes object = some node) :
    ∃ front back, nodes = front ++ node :: back ∧
      (nodes.eraseP fun n => n.object == object) = front ++ back ∧
      ∀ f, modifyNode object f nodes = front ++ f node :: back := by
  have hobject := (findNode_eq_some h).2.2
  rw [findNode, if_neg hobject] at h
  induction nodes with
  | nil => cases h
  | cons n nodes ih =>
      by_cases hn : n.object = object
      · rw [List.find?_cons_of_pos (by simpa using hn)] at h
        cases h
        exact ⟨[], nodes, rfl, List.eraseP_cons_of_pos (by simpa using hn), fun f => by
          rw [modifyNode, if_pos hn, List.nil_append]⟩
      · rw [List.find?_cons_of_neg (by simpa using hn)] at h
        obtain ⟨front, back, hnodes, herase, hmodify⟩ := ih h
        refine ⟨n :: front, back, by rw [hnodes, List.cons_append], ?_, fun f => ?_⟩
        · rw [List.eraseP_cons_of_neg (by simpa using hn), herase, List.cons_append]
        · rw [modifyNode, if_neg hn, hmodify, List.cons_append]

/-! ### What leaves the list and the counters alone -/

/-- The list of objects and the counters. -/
def Memory.books (s : Memory) : List ObjectNode × MemoryStats × Bool :=
  (s.allObjects, s.stats, s.initialized)

theorem books_eq_iff : s'.books = s.books ↔
    s'.allObjects = s.allObjects ∧ s'.stats = s.stats ∧ s'.initialized = s.initialized := by
  simp [Memory.books]

theorem takeBlock_books (h : s.takeBlock = some (p, s')) : s'.books = s.books ∧ p ≠ 0 := by
  rw [Memory.takeBlock] at h
  split at h
  next => cases h
  next c chunks _ =>
    obtain ⟨⟨i, bitmap⟩, -, heq⟩ := Option.map_eq_some_iff.mp h
    cases heq
    exact ⟨rfl, Nat.ne_of_gt (Nat.add_pos_left (Nat.pos_of_ne_zero c.base.property) _)⟩

theorem poolAlloc_books {chunk : Option NonNull} (h : s.poolAlloc chunk = some (p, s')) :
    s'.books = s.books ∧ p ≠ 0 := by
  rw [Memory.poolAlloc] at h
  split at h
  next =>
    obtain ⟨base, -, htake⟩ := Option.bind_eq_some_iff.mp h
    exact takeBlock_books (s := s.addChunk base) htake
  next => exact takeBlock_books h

theorem libcFree_books (h : s.libcFree p = .ok s') : s'.books = s.books := by
  rw [Memory.libcFree] at h
  split at h
  next => cases h; rfl
  next => cases h

theorem libcRealloc_books {size : ℕ} {grant : Grant} (h : s.libcRealloc p size grant = .ok s') :
    s'.books = s.books := by
  rw [Memory.libcRealloc] at h
  split at h
  next => cases h; rfl
  next => cases h

theorem freeUnlessPooled_books {wasPooled : Bool} (h : s.freeUnlessPooled p wasPooled = .ok s') :
    s'.books = s.books := by
  rw [Memory.freeUnlessPooled] at h
  split at h
  next => cases h; rfl
  next => exact libcFree_books h

theorem returnBlock_books (h : s.returnBlock p = .ok s') : s'.books = s.books := by
  rw [Memory.returnBlock] at h
  split at h
  next => cases h; rfl
  next => exact libcFree_books h

theorem obtain_books {size : ℕ} {supply : Supply} (h : s.obtain size supply = .ok (p, s')) :
    s'.books = s.books ∧ p ≠ 0 := by
  rw [Memory.obtain] at h
  split at h
  next q u hq =>
    cases h
    split at hq
    next => exact (poolAlloc_books hq :)
    next => cases hq
  next =>
    obtain ⟨grant, -, h⟩ := bind_eq_ok.mp h
    cases h
    exact ⟨rfl, grant.address.property⟩

theorem moveBlock_books {oldSize newSize : ℕ} {wasPooled : Bool} {supply : Supply}
    (h : s.moveBlock p oldSize newSize wasPooled supply = .ok (q, s')) : s'.books = s.books := by
  rw [Memory.moveBlock] at h
  split at h
  next q' u hq =>
    obtain ⟨t, ht, h⟩ := bind_eq_ok.mp h
    cases h
    split at hq
    next =>
      exact (freeUnlessPooled_books ht).trans (poolAlloc_books hq).1
    next => cases hq
  next =>
    obtain ⟨grant, -, h⟩ := bind_eq_ok.mp h
    split at h
    next => cases h; rfl
    next =>
      obtain ⟨t, ht, h⟩ := bind_eq_ok.mp h
      cases h
      exact libcRealloc_books ht

/-! ### Reallocation -/

section Resized

variable {oldSize newSize : ℕ}

@[simp] theorem resized_allObjects : (s.resized q oldSize newSize).allObjects = s.allObjects := by
  rw [Memory.resized]
  split <;> rfl

@[simp] theorem resized_initialized :
    (s.resized q oldSize newSize).initialized = s.initialized := by
  rw [Memory.resized]
  split <;> rfl

@[simp] theorem resized_peakObjects :
    (s.resized q oldSize newSize).stats.peakObjects = s.stats.peakObjects := by
  rw [Memory.resized]
  split <;> rfl

@[simp] theorem resized_currentObjects :
    (s.resized q oldSize newSize).stats.currentObjects = s.stats.currentObjects := by
  rw [Memory.resized]
  split <;> rfl

end Resized

/-- The state in which `bread_memory_realloc` asks for the new block. -/
def Memory.unpooled (s : Memory) (p : ℕ) : Memory :=
  { s with smallPool := (poolFree s.smallPool p).getD s.smallPool }

/-- The state after `bread_memory_realloc`, from that after the block has moved. -/
def Memory.moved (s : Memory) (p q : ℕ) (oldSize newSize : ℕ) : Memory :=
  { s.resized q oldSize newSize with
    allObjects := modifyNode p (fun n => { n with object := q, size := newSize }) s.allObjects }

/-- **What reallocation of an object does.** -/
theorem realloc_of_found {node : ObjectNode} {size : ℕ} {supply : Supply}
    (hnode : findNode s.allObjects p = some node) :
    s.realloc layout p size supply =
      (fun r => (r.1, r.2.moved p r.1 node.size size)) <$>
        (s.unpooled p).moveBlock p node.size size (poolFree s.smallPool p).isSome supply := by
  rw [Memory.realloc, if_neg (findNode_eq_some hnode).2.2, hnode]
  dsimp only [Memory.unpooled, Option.map_some, Option.getD_some]
  cases Memory.moveBlock _ p node.size size (poolFree s.smallPool p).isSome supply with
  | error e => rfl
  | ok result =>
      simp only [bind, Except.bind, pure, Except.pure, Functor.map, Except.map, Memory.moved,
        resized_allObjects]

/-! ### The steps of the marking loop -/

section MarkLoop

variable {stack : List ℕ} {node : ObjectNode}

theorem markLoop_nil : markLoop layout bytes nodes [] = nodes := by
  rw [markLoop]

theorem markLoop_of_unknown (h : findNode nodes object = none) :
    markLoop layout bytes nodes (object :: stack) = markLoop layout bytes nodes stack := by
  rw [markLoop]
  split
  next => rfl
  next _ hfind => cases hfind.symm.trans h

theorem markLoop_of_marked (h : findNode nodes object = some node) (hmarked : node.marked = true) :
    markLoop layout bytes nodes (object :: stack) = markLoop layout bytes nodes stack := by
  rw [markLoop]
  split
  next => rfl
  next _ hfind =>
    cases hfind.symm.trans h
    rw [dif_pos hmarked]

theorem markLoop_of_unmarked (h : findNode nodes object = some node)
    (hmarked : node.marked = false) :
    markLoop layout bytes nodes (object :: stack) =
      markLoop layout bytes (markNode nodes object)
        ((storedValues layout bytes object).foldl (markValue (markNode nodes object)) stack) := by
  rw [markLoop]
  split
  next hfind => cases hfind.symm.trans h
  next _ hfind =>
    cases hfind.symm.trans h
    rw [dif_neg (by simp [hmarked])]

end MarkLoop

/-! ### What marking changes -/

theorem map_unmark_modifyNode {f : ObjectNode → ObjectNode} (hf : ∀ n, (f n).unmark = n.unmark) :
    (modifyNode object f nodes).map ObjectNode.unmark = nodes.map ObjectNode.unmark := by
  induction nodes with
  | nil => rfl
  | cons n nodes ih =>
      rw [modifyNode]
      split
      next => rw [List.map_cons, List.map_cons, hf]
      next => rw [List.map_cons, List.map_cons, ih]

theorem map_unmark_markNode :
    (markNode nodes object).map ObjectNode.unmark = nodes.map ObjectNode.unmark :=
  map_unmark_modifyNode fun _ => rfl

theorem map_unmark_markLoop (stack : List ℕ) :
    (markLoop layout bytes nodes stack).map ObjectNode.unmark = nodes.map ObjectNode.unmark := by
  induction nodes, stack using markLoop.induct layout bytes with
  | case1 nodes => rw [markLoop_nil]
  | case2 nodes object stack hfind ih => rw [markLoop_of_unknown hfind, ih]
  | case3 nodes object stack node hfind hmarked ih => rw [markLoop_of_marked hfind hmarked, ih]
  | case4 nodes object stack node hfind hmarked _ _ ih =>
      rw [markLoop_of_unmarked hfind (Bool.of_not_eq_true hmarked)]
      exact ih.trans map_unmark_markNode

theorem map_unmark_markReachable (root : ℕ) :
    (markReachable layout bytes nodes root).map ObjectNode.unmark =
      nodes.map ObjectNode.unmark := by
  rw [markReachable]
  split
  next => rfl
  next =>
    split
    next => rfl
    next => exact map_unmark_markLoop _

theorem map_unmark_foldl (roots : List ℕ) :
    (roots.foldl (markReachable layout bytes) nodes).map ObjectNode.unmark =
      nodes.map ObjectNode.unmark := by
  induction roots generalizing nodes with
  | nil => rfl
  | cons root roots ih => rw [List.foldl_cons, ih, map_unmark_markReachable]

/-- **A collection marks the objects that there are.** -/
theorem map_unmark_markAll (layout : Layout) (s : Memory) :
    (s.markAll layout).map ObjectNode.unmark = s.allObjects.map ObjectNode.unmark := by
  rw [Memory.markAll, map_unmark_foldl, List.map_map]
  rfl

end BreadLang
