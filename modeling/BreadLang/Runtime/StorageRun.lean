import BreadLang.Runtime.Storage

/-!
# Runs of the allocator

The operations on the objects keep the storage apart, in every run in which the C heap
answers and the program touches its own objects only.  `WellStored` is what this says
about the objects, the bitmaps and the counters of the chunks.
-/

namespace BreadLang

variable {s s' : Memory} {layout : Layout} {p : ℕ}

/-- The address and the size of an object. -/
def ObjectNode.region (n : ObjectNode) : HeapBlock := ⟨n.object, n.size⟩

/-- **The invariant of the runs**: the storage that is not free is that of the objects,
and there are no collections. -/
structure Memory.Sound (s : Memory) : Prop where
  disabled : s.cycleCollectionEnabled = false
  owns : s.Owns (s.allObjects.map ObjectNode.region)

/-! ### What the invariant says -/

/-- The storage of an object: a block of the pool, or a block of the C heap that is not
a chunk. -/
inductive Memory.Occupies (s : Memory) (n : ObjectNode) : HeapBlock → Prop
  | pooled {c : Chunk} {i : ℕ} (hc : c ∈ s.smallPool) (hi : i < poolBlocksPerChunk)
      (h : n.object = c.block i) : Occupies s n ⟨c.block i, poolBlockSize⟩
  | heap {b : HeapBlock} (hb : b ∈ s.blocks) (hchunk : ∀ c ∈ s.smallPool, c.heapBlock ≠ b)
      (h : n.object = b.base) : Occupies s n b

/-- **The objects have disjoint storage that is large enough**, and the bitmaps and the
counters of the chunks agree with it. -/
structure Memory.WellStored (s : Memory) : Prop where
  stored : ∀ n ∈ s.allObjects, ∃ b, s.Occupies n b ∧ n.size ≤ b.size
  disjoint : s.allObjects.Pairwise fun m n =>
    ∀ b c, s.Occupies m b → s.Occupies n c → b.Disjoint c
  freeCount : ∀ c ∈ s.smallPool, c.freeCount = Bitmap.count c.freeBitmap
  clear_iff : ∀ c ∈ s.smallPool, ∀ i < poolBlocksPerChunk,
    Bitmap.test c.freeBitmap i = false ↔ s.Live (c.block i)

theorem mem_regions {r : HeapBlock} :
    r ∈ s.allObjects.map ObjectNode.region ↔ ∃ n ∈ s.allObjects, ⟨n.object, n.size⟩ = r :=
  List.mem_map

theorem HeapBlock.Disjoint.of_subset {b c B C : HeapBlock} (h : B.Disjoint C)
    (hb : B.base ≤ b.base ∧ b.base + b.size ≤ B.base + B.size)
    (hc : C.base ≤ c.base ∧ c.base + c.size ≤ C.base + C.size) : b.Disjoint c := by
  rcases h with h | h
  · exact .inl (by omega)
  · exact .inr (by omega)

/-- A block of a chunk lies in it. -/
theorem Chunk.block_subset (c : Chunk) {i : ℕ} (hi : i < poolBlocksPerChunk) :
    c.heapBlock.base ≤ c.block i ∧
      c.block i + poolBlockSize ≤ c.heapBlock.base + c.heapBlock.size := by
  simp only [poolBlocksPerChunk] at hi
  simp only [Chunk.heapBlock, Chunk.block, chunkSize, poolBlocksSize, poolBlocksPerChunk,
    poolBlockSize]
  omega

theorem Memory.Owns.occupies_disjoint {regions : List HeapBlock} (h : s.Owns regions)
    {m n : ObjectNode} (hne : m.object ≠ n.object) {b c : HeapBlock} (hb : s.Occupies m b)
    (hc : s.Occupies n c) : b.Disjoint c := by
  cases hb with
  | @pooled d i hd hi hm =>
      cases hc with
      | @pooled e j he hj hn =>
          by_cases hde : d = e
          · -- two blocks of one chunk
            subst hde
            have hij : i ≠ j := fun heq => hne (by rw [hm, hn, heq])
            simp only [HeapBlock.Disjoint, Chunk.block, poolBlockSize]
            omega
          · have hblocks : d.heapBlock ≠ e.heapBlock := by
              intro heq
              have hcontains := d.contains_block_base hi
              exact hde (h.chunk_eq hd he hcontains (heq ▸ hcontains))
            exact (h.disjoint.forall (h.chunk_mem d hd) (h.chunk_mem e he) hblocks).of_subset
              (d.block_subset hi) (e.block_subset hj)
      | heap hc hchunk hn =>
          exact (h.disjoint.forall (h.chunk_mem d hd) hc (hchunk d hd)).of_subset
            (d.block_subset hi) ⟨Nat.le_refl _, Nat.le_refl _⟩
  | heap hb hchunk hm =>
      cases hc with
      | @pooled e j he hj hn =>
          exact (h.disjoint.forall hb (h.chunk_mem e he) (hchunk e he).symm).of_subset
            ⟨Nat.le_refl _, Nat.le_refl _⟩ (e.block_subset hj)
      | heap hc hchunk' hn =>
          exact h.disjoint.forall hb hc fun heq => hne (by rw [hm, hn, heq])

/-- **The invariant says that the objects are well stored.** -/
theorem Memory.Sound.wellStored (h : s.Sound) : s.WellStored := by
  have howns := h.owns
  constructor
  · intro n hn
    have hmem : n.region ∈ s.allObjects.map ObjectNode.region := List.mem_map_of_mem hn
    rcases Nat.lt_or_ge poolBlockSize n.size with hsize | hsize
    · obtain ⟨hblock, hchunk⟩ := howns.heap _ hmem hsize
      exact ⟨n.region, .heap hblock hchunk rfl, Nat.le_refl _⟩
    · obtain ⟨c, hc, i, hi, hbase, -⟩ := (howns.taken n.object).mpr ⟨_, hmem, rfl, hsize⟩
      exact ⟨_, .pooled hc hi hbase, hsize⟩
  · have hnodup := howns.nodup
    rw [List.map_map, List.Nodup, List.pairwise_map] at hnodup
    exact hnodup.imp fun hne b c hb hc => howns.occupies_disjoint hne hb hc
  · exact fun c hc => (howns.bitmap c hc).2
  · intro c hc i hi
    constructor
    · intro hclear
      obtain ⟨r, hr, heq, -⟩ := (howns.taken _).mp ⟨c, hc, i, hi, rfl, hclear⟩
      obtain ⟨n, hn, rfl⟩ := mem_regions.mp hr
      exact ⟨n, hn, heq⟩
    · rintro ⟨n, hn, heq⟩
      cases htest : Bitmap.test c.freeBitmap i with
      | false => rfl
      | true =>
          have hmem : n.region ∈ s.allObjects.map ObjectNode.region := List.mem_map_of_mem hn
          exact absurd heq
            (howns.base_ne_of_not_taken hc hi (howns.not_taken hc hi htest) hmem)

/-! ### The operations -/

section Operations

variable {size newSize : ℕ} {supply : Supply}

theorem Memory.Sound.alloc (layout : Layout) (kind : ObjKind) (h : s.Sound)
    (hgranted : s.Granted size supply s.blocks) :
    ∃ p u, s.alloc layout size kind supply = .ok (p, u) ∧ u.Sound := by
  obtain ⟨p, u, hobtain, howns, hdisabled⟩ := h.owns.obtain hgranted
  obtain ⟨hbooks, hp⟩ := obtain_books hobtain
  obtain ⟨hobjects, -, -⟩ := books_eq_iff.mp hbooks
  let t : Memory := { u with
    bytes := writeHeader u.bytes p kind
    stats := { u.stats with bytesAllocated := u.stats.bytesAllocated + UInt64.ofNat size }
    allocationsSinceGc := u.allocationsSinceGc + 1
    bytesSinceGc := u.bytesSinceGc + UInt64.ofNat size }
  have halloc : s.allocObject size kind supply = .ok (p, t.track p size kind) := by
    rw [Memory.allocObject, hobtain]
    rfl
  have htrack : t.track p size kind =
      { t with
        allObjects := ⟨p, size, kind, false⟩ :: s.allObjects
        stats := t.stats.tracked } := by
    rw [Memory.track, if_neg hp, ← hobjects]
  have hsound : (t.track p size kind).Sound := by
    rw [htrack]
    exact ⟨hdisabled.trans h.disabled, howns.congr rfl rfl⟩
  refine ⟨p, t.track p size kind, ?_, hsound⟩
  have htrigger : (t.track p size kind).shouldTriggerGc = false := by
    rw [Memory.shouldTriggerGc, hsound.disabled, Bool.and_false, Bool.false_and]
  rw [Memory.alloc, halloc]
  simp only [bind, Except.bind, htrigger, Bool.false_eq_true, if_false]
  rfl

/-- An object that is live, first among the objects. -/
theorem Memory.Sound.split (h : s.Sound) (hlive : s.Live p) :
    ∃ node front back, findNode s.allObjects p = some node ∧ node.object = p ∧
      (s.allObjects.eraseP fun n => n.object == p) = front ++ back ∧
      (∀ f, modifyNode p f s.allObjects = front ++ f node :: back) ∧
      s.Owns (⟨p, node.size⟩ :: (front ++ back).map ObjectNode.region) := by
  obtain ⟨n, hn, rfl⟩ := hlive
  have hp : n.object ≠ 0 := h.owns.base_ne_zero (List.mem_map_of_mem hn)
  obtain ⟨node, hnode⟩ := exists_findNode hp ⟨n, hn, rfl⟩
  obtain ⟨front, back, hnodes, herase, hmodify⟩ := split_of_findNode hnode
  have hobject := (findNode_eq_some hnode).2.1
  refine ⟨node, front, back, hnode, hobject, herase, hmodify, ?_⟩
  have howns := h.owns
  rw [hnodes] at howns
  rw [← hobject]
  exact howns.perm (List.perm_middle.map ObjectNode.region)

theorem Memory.Sound.free (h : s.Sound) (hlive : s.Live p) :
    ∃ u, s.free p = .ok u ∧ u.Sound := by
  obtain ⟨node, front, back, hnode, hobject, herase, -, howns⟩ := h.split hlive
  have huntrack : s.untrack p =
      { s with allObjects := front ++ back, stats := s.stats.untracked node.size } := by
    rw [Memory.untrack, hnode, ← herase]
  have howns' : (s.untrack p).Owns (⟨p, node.size⟩ :: (front ++ back).map ObjectNode.region) := by
    rw [huntrack]
    exact howns.congr rfl rfl
  obtain ⟨u, hreturn, hu, hdisabled⟩ := howns'.returnBlock
  obtain ⟨hobjects, -, -⟩ := books_eq_iff.mp (returnBlock_books hreturn)
  refine ⟨u, ?_, ?_, ?_⟩
  · rw [Memory.free, if_neg (findNode_eq_some hnode).2.2]
    exact hreturn
  · rw [hdisabled, huntrack]
    exact h.disabled
  · rw [hobjects, huntrack]
    exact hu

/-- **A reallocated object keeps its first bytes, and has zeros after them.** -/
structure KeepsPrefix (s s' : Memory) (p q oldSize newSize : ℕ) : Prop where
  kept : ∀ i < min oldSize newSize, s'.bytes (q + i) = s.bytes (p + i)
  zeros : ∀ i, min oldSize newSize ≤ i → i < newSize → s'.bytes (q + i) = 0

theorem resized_keepsPrefix {u : Memory} {q oldSize : ℕ}
    (h : ∀ i < min oldSize newSize, u.bytes (q + i) = s.bytes (p + i)) :
    KeepsPrefix s (u.resized q oldSize newSize) p q oldSize newSize := by
  rw [Memory.resized]
  split
  next hlt =>
    constructor
    · intro i hi
      have hout : ¬ (q + oldSize ≤ q + i ∧ q + i < q + oldSize + (newSize - oldSize)) := by omega
      simp only [setRange, if_neg hout]
      exact h i hi
    · intro i hle hlt
      have hin : q + oldSize ≤ q + i ∧ q + i < q + oldSize + (newSize - oldSize) := by omega
      simp only [setRange, if_pos hin]
  next hle => exact ⟨h, fun i hi hlt => by omega⟩

/-- **Reallocation of a live object.** -/
theorem Memory.Sound.realloc (layout : Layout) (h : s.Sound) (hlive : s.Live p)
    (hgranted : (s.unpooled p).Granted newSize supply (s.remaining p)) :
    ∃ q u node, s.realloc layout p newSize supply = .ok (q, u) ∧ u.Sound ∧
      node ∈ s.allObjects ∧ node.object = p ∧ KeepsPrefix s u p q node.size newSize := by
  obtain ⟨node, front, back, hnode, hobject, -, hmodify, howns⟩ := h.split hlive
  obtain ⟨q, u, hmove, hu, hdisabled, hkept⟩ := howns.moveBlock hgranted
  obtain ⟨hobjects, -, -⟩ := books_eq_iff.mp (moveBlock_books hmove)
  have hresized : (u.resized q node.size newSize).cycleCollectionEnabled =
      u.cycleCollectionEnabled ∧ (u.resized q node.size newSize).blocks = u.blocks ∧
      (u.resized q node.size newSize).smallPool = u.smallPool := by
    rw [Memory.resized]
    split <;> exact ⟨rfl, rfl, rfl⟩
  obtain ⟨hdisabled', hblocks, hpool⟩ := hresized
  refine ⟨q, u.moved p q node.size newSize, node, ?_, ⟨?_, ?_⟩, (findNode_eq_some hnode).1,
    hobject, ?_⟩
  · rw [realloc_of_found hnode, hmove]
    rfl
  · exact hdisabled'.trans (hdisabled.trans h.disabled)
  · have hregions : (u.moved p q node.size newSize).allObjects.map ObjectNode.region =
        front.map ObjectNode.region ++ ⟨q, newSize⟩ :: back.map ObjectNode.region := by
      rw [Memory.moved, hobjects]
      simp only [Memory.unpooled, hmodify, List.map_append, List.map_cons]
      rfl
    rw [hregions]
    rw [List.map_append] at hu
    exact (hu.perm List.perm_middle.symm).congr hblocks hpool
  · obtain ⟨hfirst, hzeros⟩ := resized_keepsPrefix hkept
    exact ⟨hfirst, hzeros⟩

end Operations

/-! ### Runs -/

/-- The calls of a run: they allocate, or reallocate or free a live object, with an
answer of the C heap.  Between them the program writes to live objects. -/
def Memory.Allowed (s : Memory) : MemoryOp → Prop
  | .alloc size _ supply => s.Granted size supply s.blocks
  | .realloc p size supply => s.Live p ∧ (s.unpooled p).Granted size supply (s.remaining p)
  | .free p => s.Live p
  | .write a _ => ∃ n ∈ s.allObjects, n.region.Contains a
  | _ => False

instance (b : HeapBlock) (a : ℕ) : Decidable (b.Contains a) :=
  inferInstanceAs (Decidable (_ ∧ _))

instance (s : Memory) : ∀ op, Decidable (s.Allowed op)
  | .alloc size _ supply => inferInstanceAs (Decidable (s.Granted size supply s.blocks))
  | .realloc p size supply =>
      inferInstanceAs (Decidable (s.Live p ∧
        (s.unpooled p).Granted size supply (s.remaining p)))
  | .free p => inferInstanceAs (Decidable (s.Live p))
  | .write a _ => inferInstanceAs (Decidable (∃ n ∈ s.allObjects, n.region.Contains a))
  | .retain _ | .release _ | .collectCycles | .sweepUnreachable | .addRoot _ _ | .removeRoot _
  | .setThreshold _ | .enableAutoGc _ | .setBytesThreshold _ => isFalse id

theorem Memory.Sound.step {op : MemoryOp} (h : s.Sound) (hallowed : s.Allowed op) :
    ∃ s' r, s.step layout op = .ok (s', r) ∧ s'.Sound := by
  cases op with
  | alloc size kind supply =>
      obtain ⟨p, u, halloc, hu⟩ := h.alloc layout kind hallowed
      exact ⟨u, p, by rw [Memory.step, halloc]; rfl, hu⟩
  | realloc p size supply =>
      obtain ⟨q, u, -, hrealloc, hu, -⟩ := h.realloc layout hallowed.1 hallowed.2
      exact ⟨u, q, by rw [Memory.step, hrealloc]; rfl, hu⟩
  | free p =>
      obtain ⟨u, hfree, hu⟩ := h.free hallowed
      exact ⟨u, 0, by rw [Memory.step, hfree]; rfl, hu⟩
  | write a byte => exact ⟨_, 0, rfl, h.disabled, h.owns.congr rfl rfl⟩
  | _ => exact hallowed.elim

theorem init_sound (bytes : Bytes) : (Memory.init bytes).Sound where
  disabled := rfl
  owns := by
    refine ⟨.nil, ?_, ?_, .nil, ?_, .nil, ?_, ?_⟩ <;> simp [Memory.init, Taken]

/-- An object of the pool moves to the C heap and one of the C heap to the pool, and a
third one takes the block that has become free. -/
def crossingMoves : List MemoryOp :=
  [.alloc 16 .string ⟨some (.next 4095), none⟩,
   .alloc 100 .class ⟨none, some ⟨.next 65535, fun _ => 255⟩⟩,
   .write 4110 7,
   .realloc 4096 200 ⟨none, some ⟨.next 131071, fun _ => 255⟩⟩,
   .realloc 65536 20 ⟨none, none⟩,
   .alloc 64 .array ⟨none, none⟩,
   .free 131072]

end BreadLang
