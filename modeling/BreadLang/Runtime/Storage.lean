import BreadLang.Runtime.MemoryFacts
import Mathlib.Data.List.Pairwise

/-!
# The storage of the objects

Every object has storage of its own.  `Owns` says that the storage that is not free
is that of a list of objects, given by their addresses and sizes: an object of at most
64 bytes has a block of the pool whose bit is clear, and any other object has a block
of the C heap.  The pool and the C heap give out and take back storage, and each step
is one rule about `Owns`.

The C heap is assumed to answer with blocks that are disjoint from those in use.
-/

namespace BreadLang

variable {s s' : Memory} {layout : Layout} {regions : List HeapBlock} {r : HeapBlock}
variable {a p q : ℕ}

/-! ### Blocks -/

namespace HeapBlock

/-- Two blocks have no address in common. -/
def Disjoint (b c : HeapBlock) : Prop :=
  b.base + b.size ≤ c.base ∨ c.base + c.size ≤ b.base

/-- An address of a block. -/
def Contains (b : HeapBlock) (a : ℕ) : Prop :=
  b.base ≤ a ∧ a < b.base + b.size

variable {b c : HeapBlock}

theorem Disjoint.symm (h : b.Disjoint c) : c.Disjoint b :=
  Or.symm h

instance : Std.Symm Disjoint :=
  ⟨fun _ _ h => h.symm⟩

theorem Disjoint.not_contains (h : b.Disjoint c) (hb : b.Contains a) : ¬ c.Contains a := by
  rintro ⟨hlow, hhigh⟩
  obtain ⟨hlow', hhigh'⟩ := hb
  rcases h with h | h <;> omega

/-- A block that starts at an address contains it. -/
theorem contains_base (h : 0 < b.size) : b.Contains b.base :=
  ⟨Nat.le_refl _, Nat.lt_add_of_pos_right h⟩

end HeapBlock

/-- A block that is disjoint from those in use. -/
def Fresh (blocks : List HeapBlock) (b : HeapBlock) : Prop :=
  ∀ c ∈ blocks, b.Disjoint c

theorem Fresh.ne {blocks : List HeapBlock} {b c : HeapBlock} (h : Fresh blocks b)
    (hb : 0 < b.size) (hc : c ∈ blocks) : c ≠ b := by
  rintro rfl
  exact (h c hc).not_contains (HeapBlock.contains_base hb) (HeapBlock.contains_base hb)

/-- The block of the C heap in which a chunk lies. -/
def Chunk.heapBlock (c : Chunk) : HeapBlock := ⟨c.base, chunkSize⟩

/-- The addresses that a block of a chunk takes up. -/
theorem Chunk.contains_block (c : Chunk) {i k : ℕ} (hi : i < poolBlocksPerChunk)
    (hk : k < poolBlockSize) : c.heapBlock.Contains (c.block i + k) := by
  simp only [poolBlocksPerChunk, poolBlockSize] at hi hk
  simp only [HeapBlock.Contains, Chunk.heapBlock, Chunk.block, chunkSize, poolBlocksSize,
    poolBlocksPerChunk, poolBlockSize]
  omega

theorem Chunk.contains_block_base (c : Chunk) {i : ℕ} (hi : i < poolBlocksPerChunk) :
    c.heapBlock.Contains (c.block i) :=
  c.contains_block (k := 0) hi (by decide)

theorem Chunk.block_injective {c : Chunk} {i j : ℕ} (h : c.block i = c.block j) : i = j := by
  simp only [Chunk.block, poolBlockSize] at h
  omega

theorem chunkSize_pos : 0 < chunkSize := by
  decide

theorem poolBlocksSize_le : poolBlocksSize ≤ chunkSize := by
  decide

/-- The bitmap of a new chunk. -/
theorem fullBitmap (i : ℕ) (hi : i < poolBlocksPerChunk) :
    Bitmap.test (List.replicate (poolBlocksPerChunk / 64) (BitVec.allOnes 64)) i = true := by
  have hall : ∀ i < poolBlocksPerChunk,
      Bitmap.test (List.replicate (poolBlocksPerChunk / 64) (BitVec.allOnes 64)) i = true := by
    decide +kernel
  exact hall i hi

theorem count_fullBitmap :
    poolBlocksPerChunk =
      Bitmap.count (List.replicate (poolBlocksPerChunk / 64) (BitVec.allOnes 64)) := by
  decide +kernel

/-- A chunk with a block freed. -/
def Chunk.freed (c : Chunk) (i : ℕ) : Chunk :=
  { c with freeBitmap := Bitmap.add c.freeBitmap i, freeCount := c.freeCount + 1 }

/-- The loop of `bread_pool_free` gets to the chunk that has the block. -/
theorem poolFree_of_mem {chunks : List Chunk} {c : Chunk} {i : ℕ} (hc : c ∈ chunks)
    (hi : i < poolBlocksPerChunk)
    (honly : ∀ d ∈ chunks, d.heapBlock.Contains (c.block i) → d = c) :
    ∃ front back, chunks = front ++ c :: back ∧
      poolFree chunks (c.block i) = some (front ++ c.freed i :: back) := by
  induction chunks with
  | nil => cases hc
  | cons d chunks ih =>
      rw [poolFree]
      split
      next hrange =>
        have hcontains : d.heapBlock.Contains (c.block i) :=
          ⟨hrange.1, hrange.2.trans_le (Nat.add_le_add_left poolBlocksSize_le _)⟩
        obtain rfl := honly d List.mem_cons_self hcontains
        have hindex : (d.block i - d.base.val) / poolBlockSize = i := by
          simp [Chunk.block, poolBlockSize]
        exact ⟨[], chunks, rfl, by simp only [hindex]; rfl⟩
      next hrange =>
        have hne : c ≠ d := by
          rintro rfl
          simp only [Chunk.block, poolBlocksSize, poolBlocksPerChunk, poolBlockSize] at hrange hi
          omega
        obtain ⟨front, back, hchunks, hfree⟩ := ih ((List.mem_cons.mp hc).resolve_left hne)
          fun e he => honly e (List.mem_cons_of_mem d he)
        exact ⟨d :: front, back, by rw [hchunks, List.cons_append], by rw [hfree]; rfl⟩

/-- An address that is in no chunk. -/
theorem poolFree_eq_none {chunks : List Chunk} (h : ∀ c ∈ chunks, ¬ c.heapBlock.Contains p) :
    poolFree chunks p = none := by
  induction chunks with
  | nil => rfl
  | cons c chunks ih =>
      obtain ⟨hc, hchunks⟩ := List.forall_mem_cons.mp h
      rw [poolFree, if_neg, ih hchunks]
      · rfl
      · exact fun hrange =>
          hc ⟨hrange.1, hrange.2.trans_le (Nat.add_le_add_left poolBlocksSize_le _)⟩

/-- A block of a chunk whose bit is clear. -/
def Chunk.Took (c : Chunk) (a : ℕ) : Prop :=
  ∃ i < poolBlocksPerChunk, a = c.block i ∧ Bitmap.test c.freeBitmap i = false

/-- A block of the pool whose bit is clear. -/
def Taken (chunks : List Chunk) (a : ℕ) : Prop :=
  ∃ c ∈ chunks, c.Took a

theorem Chunk.took_freed {c : Chunk} {i : ℕ} (hi : i < 64 * c.freeBitmap.length) :
    (c.freed i).Took a ↔ c.Took a ∧ a ≠ c.block i := by
  simp only [Chunk.Took, Chunk.freed, Bitmap.test_add hi, Bool.or_eq_false_iff,
    decide_eq_false_iff_not]
  constructor
  · rintro ⟨j, hj, rfl, hclear, hne⟩
    exact ⟨⟨j, hj, rfl, hclear⟩, fun heq => hne (Chunk.block_injective heq)⟩
  · rintro ⟨⟨j, hj, rfl, hclear⟩, hne⟩
    exact ⟨j, hj, rfl, hclear, fun heq => hne (by rw [heq])⟩

/-- Freeing a block that only one chunk has. -/
theorem taken_freed {front back : List Chunk} {c : Chunk} {i : ℕ}
    (hi : i < 64 * c.freeBitmap.length)
    (hothers : ∀ d ∈ front ++ back, ¬ d.Took (c.block i)) :
    Taken (front ++ c.freed i :: back) a ↔ Taken (front ++ c :: back) a ∧ a ≠ c.block i := by
  have hmem (c : Chunk) : Taken (front ++ c :: back) a ↔ c.Took a ∨ Taken (front ++ back) a := by
    simp only [Taken, List.mem_append, List.mem_cons]
    constructor
    · rintro ⟨d, hd | rfl | hd, htook⟩
      · exact .inr ⟨d, .inl hd, htook⟩
      · exact .inl htook
      · exact .inr ⟨d, .inr hd, htook⟩
    · rintro (htook | ⟨d, hd | hd, htook⟩)
      · exact ⟨c, .inr (.inl rfl), htook⟩
      · exact ⟨d, .inl hd, htook⟩
      · exact ⟨d, .inr (.inr hd), htook⟩
  have hne (h : Taken (front ++ back) a) : a ≠ c.block i := by
    rintro rfl
    obtain ⟨d, hd, htook⟩ := h
    exact hothers d hd htook
  rw [hmem, hmem, Chunk.took_freed hi, or_and_right]
  exact or_congr Iff.rfl ⟨fun h => ⟨h, hne h⟩, And.left⟩

/-! ### The invariant -/

/-- **The storage that is not free is that of the given objects.** -/
structure Memory.Owns (s : Memory) (regions : List HeapBlock) : Prop where
  disjoint : s.blocks.Pairwise HeapBlock.Disjoint
  positive : ∀ b ∈ s.blocks, 0 < b.size ∧ b.base ≠ 0
  chunk_mem : ∀ c ∈ s.smallPool, c.heapBlock ∈ s.blocks
  chunks : s.smallPool.Pairwise fun c d => c.heapBlock ≠ d.heapBlock
  bitmap : ∀ c ∈ s.smallPool,
    64 * c.freeBitmap.length = poolBlocksPerChunk ∧ c.freeCount = Bitmap.count c.freeBitmap
  nodup : (regions.map HeapBlock.base).Nodup
  heap : ∀ r ∈ regions, poolBlockSize < r.size →
    r ∈ s.blocks ∧ ∀ c ∈ s.smallPool, c.heapBlock ≠ r
  taken : ∀ a, Taken s.smallPool a ↔ ∃ r ∈ regions, r.base = a ∧ r.size ≤ poolBlockSize

namespace Memory.Owns

/-- Two blocks that share an address are the same. -/
theorem eq_of_contains (h : s.Owns regions) {b c : HeapBlock} (hb : b ∈ s.blocks)
    (hc : c ∈ s.blocks) (hab : b.Contains a) (hac : c.Contains a) : b = c := by
  by_contra hne
  exact (h.disjoint.forall hb hc hne).not_contains hab hac

/-- Two chunks that share an address are the same. -/
theorem chunk_eq (h : s.Owns regions) {c d : Chunk} (hc : c ∈ s.smallPool) (hd : d ∈ s.smallPool)
    (hac : c.heapBlock.Contains a) (had : d.heapBlock.Contains a) : c = d := by
  by_contra hne
  have : Std.Symm fun c d : Chunk => c.heapBlock ≠ d.heapBlock := ⟨fun _ _ h => h.symm⟩
  exact h.chunks.forall hc hd hne (h.eq_of_contains (h.chunk_mem c hc) (h.chunk_mem d hd) hac had)

/-- A block whose bit is set is not taken. -/
theorem not_taken (h : s.Owns regions) {c : Chunk} {i : ℕ} (hc : c ∈ s.smallPool)
    (hi : i < poolBlocksPerChunk) (htest : Bitmap.test c.freeBitmap i = true) :
    ¬ Taken s.smallPool (c.block i) := by
  rintro ⟨d, hd, j, hj, heq, hclear⟩
  have hcontains := d.contains_block_base hj
  rw [← heq] at hcontains
  obtain rfl := h.chunk_eq hc hd (c.contains_block_base hi) hcontains
  rw [Chunk.block_injective heq, hclear] at htest
  cases htest

/-- An object of the C heap is not in a chunk. -/
theorem not_contains_of_heap (h : s.Owns regions) (hr : r ∈ regions)
    (hsize : poolBlockSize < r.size) {c : Chunk} (hc : c ∈ s.smallPool) :
    ¬ c.heapBlock.Contains r.base := by
  obtain ⟨hmem, hchunk⟩ := h.heap r hr hsize
  intro hcontains
  exact hchunk c hc (h.eq_of_contains (h.chunk_mem c hc) hmem hcontains
    (HeapBlock.contains_base (Nat.zero_lt_of_lt hsize)))

/-- The objects in another order. -/
theorem perm {regions' : List HeapBlock} (h : s.Owns regions) (hperm : regions.Perm regions') :
    s.Owns regions' where
  disjoint := h.disjoint
  positive := h.positive
  chunk_mem := h.chunk_mem
  chunks := h.chunks
  bitmap := h.bitmap
  nodup := (hperm.map _).nodup_iff.mp h.nodup
  heap r hr := h.heap r (hperm.mem_iff.mpr hr)
  taken a := by simpa only [hperm.mem_iff] using h.taken a

/-- A block of the pool that is not taken belongs to no object. -/
theorem base_ne_of_not_taken (h : s.Owns regions) {c : Chunk} {i : ℕ} (hc : c ∈ s.smallPool)
    (hi : i < poolBlocksPerChunk) (hfree : ¬ Taken s.smallPool (c.block i)) (hr : r ∈ regions) :
    r.base ≠ c.block i := by
  intro heq
  rcases Nat.lt_or_ge poolBlockSize r.size with hsize | hsize
  · have hcontains := c.contains_block_base hi
    rw [← heq] at hcontains
    exact h.not_contains_of_heap hr hsize hc hcontains
  · exact hfree ((h.taken _).mpr ⟨r, hr, heq, hsize⟩)

/-! ### The pool -/

/-- **A block of the pool is taken.** -/
theorem takeBlock (h : s.Owns regions) (hfree : s.needsChunk = false) {size : ℕ}
    (hsize : size ≤ poolBlockSize) :
    ∃ p chunks, s.takeBlock = some (p, { s with smallPool := chunks }) ∧
      Memory.Owns { s with smallPool := chunks } (⟨p, size⟩ :: regions) := by
  rw [Memory.needsChunk] at hfree
  split at hfree
  next => cases hfree
  next c chunks hpool =>
    have hc : c ∈ s.smallPool := hpool ▸ List.mem_cons_self
    obtain ⟨hlength, hcount⟩ := h.bitmap c hc
    have hpositive : 0 < Bitmap.count c.freeBitmap :=
      hcount ▸ Nat.pos_of_ne_zero (by simpa using hfree)
    obtain ⟨i, bitmap, htake⟩ := Bitmap.exists_takeFirst (by decide) hpositive
    obtain ⟨htest, hlength', hothers⟩ := Bitmap.takeFirst_eq_some htake
    have hi : i < poolBlocksPerChunk := hlength ▸ Bitmap.lt_of_test htest
    have hfree' := h.not_taken hc hi htest
    have hchunks (P : Chunk → Prop) (hP : ∀ d ∈ s.smallPool, P d)
        (hnew : P { c with freeBitmap := bitmap, freeCount := c.freeCount - 1 }) :
        ∀ d ∈ { c with freeBitmap := bitmap, freeCount := c.freeCount - 1 } :: chunks, P d :=
      List.forall_mem_cons.mpr
        ⟨hnew, fun d hd => hP d (hpool ▸ List.mem_cons_of_mem c hd)⟩
    refine ⟨c.block i, { c with freeBitmap := bitmap, freeCount := c.freeCount - 1 } :: chunks,
      by rw [Memory.takeBlock, hpool]; simp only [htake, Option.map_some], ?_⟩
    constructor
    · exact h.disjoint
    · exact h.positive
    · exact hchunks _ h.chunk_mem (h.chunk_mem c hc)
    · have hpairwise := h.chunks
      rw [hpool, List.pairwise_cons] at hpairwise
      exact List.pairwise_cons.mpr ⟨fun d hd => hpairwise.1 d hd, hpairwise.2⟩
    · refine hchunks _ h.bitmap ⟨hlength' ▸ hlength, ?_⟩
      have hcount' := Bitmap.count_takeFirst htake
      simp only
      omega
    · refine List.nodup_cons.mpr ⟨?_, h.nodup⟩
      rw [List.mem_map]
      rintro ⟨r, hr, heq⟩
      exact h.base_ne_of_not_taken hc hi hfree' hr heq
    · intro r hr hlarge
      rcases List.mem_cons.mp hr with rfl | hr
      · exact absurd hlarge (Nat.not_lt.mpr hsize)
      · obtain ⟨hmem, hchunk⟩ := h.heap r hr hlarge
        exact ⟨hmem, hchunks _ hchunk (hchunk c hc)⟩
    · intro a
      have htaken : Taken ({ c with freeBitmap := bitmap, freeCount := c.freeCount - 1 } :: chunks)
          a ↔ a = c.block i ∨ Taken s.smallPool a := by
        rw [hpool]
        simp only [Taken, Chunk.Took, List.exists_mem_cons_iff, hothers, Bool.and_eq_false_iff,
          decide_eq_false_iff_not, ne_eq, not_not]
        constructor
        · rintro (⟨j, hj, rfl, hclear | rfl⟩ | hlater)
          · exact .inr (.inl ⟨j, hj, rfl, hclear⟩)
          · exact .inl rfl
          · exact .inr (.inr hlater)
        · rintro (rfl | ⟨j, hj, rfl, hclear⟩ | hlater)
          · exact .inl ⟨i, hi, rfl, .inr rfl⟩
          · exact .inl ⟨j, hj, rfl, .inl hclear⟩
          · exact .inr hlater
      simp only [htaken, h.taken, List.exists_mem_cons_iff, hsize, and_true, eq_comm (a := a)]

/-- A new chunk, all of whose blocks are free. -/
theorem addChunk (h : s.Owns regions) {base : NonNull}
    (hfresh : Fresh s.blocks ⟨base, chunkSize⟩) :
    (s.addChunk base).Owns regions ∧ (s.addChunk base).needsChunk = false := by
  refine ⟨⟨?_, ?_, ?_, ?_, ?_, h.nodup, ?_, ?_⟩, rfl⟩
  · exact List.pairwise_cons.mpr ⟨hfresh, h.disjoint⟩
  · exact List.forall_mem_cons.mpr ⟨⟨chunkSize_pos, base.property⟩, h.positive⟩
  · exact List.forall_mem_cons.mpr
      ⟨List.mem_cons_self, fun c hc => List.mem_cons_of_mem _ (h.chunk_mem c hc)⟩
  · exact List.pairwise_cons.mpr
      ⟨fun c hc => (hfresh.ne chunkSize_pos (h.chunk_mem c hc)).symm, h.chunks⟩
  · exact List.forall_mem_cons.mpr ⟨⟨rfl, count_fullBitmap⟩, h.bitmap⟩
  · intro r hr hsize
    obtain ⟨hmem, hchunk⟩ := h.heap r hr hsize
    exact ⟨List.mem_cons_of_mem _ hmem,
      List.forall_mem_cons.mpr ⟨(hfresh.ne chunkSize_pos hmem).symm, hchunk⟩⟩
  · intro a
    rw [← h.taken]
    refine ⟨?_, fun ⟨c, hc, htaken⟩ => ⟨c, List.mem_cons_of_mem _ hc, htaken⟩⟩
    rintro ⟨c, hc, i, hi, heq, hclear⟩
    rcases List.mem_cons.mp hc with rfl | hc
    · simp only [fullBitmap i hi] at hclear
      cases hclear
    · exact ⟨c, hc, i, hi, heq, hclear⟩

/-- **A block for an object of the pool**, in a new chunk if there is need. -/
theorem poolAlloc (h : s.Owns regions) {chunk : Option NonNull} {size : ℕ}
    (hsize : size ≤ poolBlockSize)
    (hchunk : s.needsChunk = true → ∃ base ∈ chunk, Fresh s.blocks ⟨base.val, chunkSize⟩) :
    ∃ p u, s.poolAlloc chunk = some (p, u) ∧ u.Owns (⟨p, size⟩ :: regions) ∧
      u.books = s.books ∧ u.cycleCollectionEnabled = s.cycleCollectionEnabled ∧
      ∀ b ∈ s.blocks, b ∈ u.blocks ∧ ∀ a, b.Contains a → u.bytes a = s.bytes a := by
  rw [Memory.poolAlloc]
  cases hneeds : s.needsChunk with
  | false =>
      obtain ⟨p, chunks, htake, howns⟩ := h.takeBlock hneeds hsize
      exact ⟨p, _, htake, howns, rfl, rfl, fun b hb => ⟨hb, fun _ _ => rfl⟩⟩
  | true =>
      obtain ⟨base, rfl, hfresh⟩ := hchunk hneeds
      obtain ⟨hadded, hready⟩ := h.addChunk hfresh
      obtain ⟨p, chunks, htake, howns⟩ := hadded.takeBlock hready hsize
      refine ⟨p, _, htake, howns, rfl, rfl, fun b hb => ⟨List.mem_cons_of_mem _ hb, ?_⟩⟩
      intro a ha
      have hout : ¬ (base.val ≤ a ∧ a < base.val + poolBlocksSize) := by
        rintro ⟨hlow, hhigh⟩
        exact (hfresh b hb).not_contains ⟨hlow, hhigh.trans_le (Nat.add_le_add_left poolBlocksSize_le _)⟩ ha
      exact if_neg hout

/-- **A block goes back to the pool.** -/
theorem freePooled (h : s.Owns (r :: regions)) (hsize : r.size ≤ poolBlockSize) :
    ∃ chunks, poolFree s.smallPool r.base = some chunks ∧
      Memory.Owns { s with smallPool := chunks } regions := by
  obtain ⟨c, hc, i, hi, hbase, hclear⟩ := (h.taken r.base).mpr ⟨r, by simp, rfl, hsize⟩
  have hcontains := c.contains_block_base hi
  obtain ⟨front, back, hpool, hfree⟩ := poolFree_of_mem hc hi
    fun d hd had => h.chunk_eq hd hc had hcontains
  obtain ⟨hlength, hcount⟩ := h.bitmap c hc
  have hindex : i < 64 * c.freeBitmap.length := hlength ▸ hi
  have hchunks (P : Chunk → Prop) (hP : ∀ d ∈ s.smallPool, P d) (hnew : P (c.freed i)) :
      ∀ d ∈ front ++ c.freed i :: back, P d := by
    rw [hpool] at hP
    simp only [List.forall_mem_append, List.forall_mem_cons] at hP ⊢
    exact ⟨hP.1, hnew, hP.2.2⟩
  have hnodup := h.nodup
  rw [List.map_cons, List.nodup_cons] at hnodup
  refine ⟨front ++ c.freed i :: back, hbase ▸ hfree, ?_⟩
  constructor
  · exact h.disjoint
  · exact h.positive
  · exact hchunks _ h.chunk_mem (h.chunk_mem c hc)
  · have hpairwise := h.chunks
    rw [hpool] at hpairwise
    simp only [List.pairwise_append, List.pairwise_cons, List.forall_mem_cons] at hpairwise ⊢
    exact hpairwise
  · refine hchunks _ h.bitmap ⟨by simpa [Chunk.freed] using hlength, ?_⟩
    simp only [Chunk.freed, Bitmap.count_add hindex hclear, hcount]
  · exact hnodup.2
  · intro r' hr' hlarge
    obtain ⟨hmem, hchunk⟩ := h.heap r' (List.mem_cons_of_mem r hr') hlarge
    exact ⟨hmem, hchunks _ hchunk (hchunk c hc)⟩
  · intro a
    have hothers : ∀ d ∈ front ++ back, ¬ d.Took (c.block i) := by
      have hpairwise := h.chunks
      rw [hpool] at hpairwise
      have hpairwise := List.pairwise_middle (fun h => Ne.symm h) |>.mp hpairwise
      rintro d hd ⟨j, hj, heq, -⟩
      have hd' : d ∈ s.smallPool := by
        rw [hpool, List.mem_append, List.mem_cons]
        exact (List.mem_append.mp hd).imp id .inr
      refine (List.pairwise_cons.mp hpairwise).1 d hd ?_
      rw [h.chunk_eq hd' hc (heq ▸ d.contains_block_base hj) hcontains]
    have htaken : Taken (front ++ c.freed i :: back) a ↔ Taken s.smallPool a ∧ a ≠ r.base := by
      rw [hpool, hbase]
      exact taken_freed hindex hothers
    have hne (r' : HeapBlock) (hr' : r' ∈ regions) : r'.base ≠ r.base :=
      fun heq => hnodup.1 (List.mem_map.mpr ⟨r', hr', heq⟩)
    rw [htaken, h.taken]
    constructor
    · rintro ⟨⟨r', hr', rfl, hsmall⟩, hbase⟩
      rcases List.mem_cons.mp hr' with rfl | hr'
      · exact absurd rfl hbase
      · exact ⟨r', hr', rfl, hsmall⟩
    · rintro ⟨r', hr', rfl, hsmall⟩
      exact ⟨⟨r', List.mem_cons_of_mem r hr', rfl, hsmall⟩, hne r' hr'⟩

/-! ### The C heap -/

/-- The storage is that of the blocks and the pool. -/
theorem congr (h : s.Owns regions) (hblocks : s'.blocks = s.blocks)
    (hpool : s'.smallPool = s.smallPool) : s'.Owns regions := by
  obtain ⟨h₁, h₂, h₃, h₄, h₅, h₆, h₇, h₈⟩ := h
  constructor
  · exact hblocks ▸ h₁
  · exact hblocks ▸ h₂
  · exact hblocks ▸ hpool ▸ h₃
  · exact hpool ▸ h₄
  · exact hpool ▸ h₅
  · exact h₆
  · exact hblocks ▸ hpool ▸ h₇
  · exact hpool ▸ h₈

/-- The address of an object lies in a block of the C heap, with all its bytes. -/
theorem exists_block (h : s.Owns regions) (hr : r ∈ regions) :
    ∃ b ∈ s.blocks, b.Contains r.base ∧ ∀ i < r.size, b.Contains (r.base + i) := by
  rcases Nat.lt_or_ge poolBlockSize r.size with hsize | hsize
  · refine ⟨r, (h.heap r hr hsize).1, HeapBlock.contains_base (Nat.zero_lt_of_lt hsize), ?_⟩
    exact fun i hi => ⟨Nat.le_add_right _ _, Nat.add_lt_add_left hi _⟩
  · obtain ⟨c, hc, i, hi, hbase, -⟩ := (h.taken r.base).mpr ⟨r, hr, rfl, hsize⟩
    rw [hbase]
    exact ⟨c.heapBlock, h.chunk_mem c hc, c.contains_block_base hi,
      fun k hk => c.contains_block hi (hk.trans_le hsize)⟩

theorem base_ne_zero (h : s.Owns regions) (hr : r ∈ regions) : r.base ≠ 0 := by
  obtain ⟨b, hb, hcontains, -⟩ := h.exists_block hr
  have hpositive := (h.positive b hb).2
  have hlow := hcontains.1
  omega

/-- A fresh block of the C heap. -/
theorem malloc (h : s.Owns regions) (grant : Grant) {size : ℕ} (hsize : poolBlockSize < size)
    (hfresh : Fresh s.blocks ⟨grant.address, size⟩) :
    (s.malloc size grant).Owns (⟨grant.address, size⟩ :: regions) := by
  have hpos : 0 < size := Nat.zero_lt_of_lt hsize
  constructor
  · exact List.pairwise_cons.mpr ⟨hfresh, h.disjoint⟩
  · exact List.forall_mem_cons.mpr ⟨⟨hpos, grant.address.property⟩, h.positive⟩
  · exact fun c hc => List.mem_cons_of_mem _ (h.chunk_mem c hc)
  · exact h.chunks
  · exact h.bitmap
  · refine List.nodup_cons.mpr ⟨?_, h.nodup⟩
    rw [List.mem_map]
    rintro ⟨r, hr, heq⟩
    obtain ⟨b, hb, hcontains, -⟩ := h.exists_block hr
    rw [heq] at hcontains
    exact (hfresh b hb).not_contains (HeapBlock.contains_base hpos) hcontains
  · refine List.forall_mem_cons.mpr ⟨fun _ => ⟨List.mem_cons_self, fun c hc => ?_⟩, ?_⟩
    · exact hfresh.ne hpos (h.chunk_mem c hc)
    · intro r hr hlarge
      obtain ⟨hmem, hchunk⟩ := h.heap r hr hlarge
      exact ⟨List.mem_cons_of_mem _ hmem, hchunk⟩
  · intro a
    change Taken s.smallPool a ↔ _
    rw [h.taken, List.exists_mem_cons_iff]
    simp only [Nat.not_le.mpr hsize, and_false, false_or]

/-- Another block than that of an object does not start there. -/
theorem mem_otherBlocks (h : s.Owns regions) (hr : r ∈ s.blocks) {b : HeapBlock} :
    b ∈ s.otherBlocks r.base ↔ b ∈ s.blocks ∧ b ≠ r := by
  rw [Memory.otherBlocks, List.mem_filter]
  refine and_congr_right fun hb => ?_
  simp only [bne_iff_ne, ne_eq, not_iff_not]
  refine ⟨fun heq => ?_, fun heq => by rw [heq]⟩
  have hcontains := HeapBlock.contains_base (h.positive b hb).1
  rw [heq] at hcontains
  exact h.eq_of_contains hb hr hcontains (HeapBlock.contains_base (h.positive r hr).1)

theorem find_block (h : s.Owns regions) (hr : r ∈ s.blocks) :
    s.blocks.find? (fun b => b.base == r.base) = some r := by
  obtain ⟨b, hb⟩ := Option.isSome_iff_exists.mp
    (List.find?_isSome (p := fun b => b.base == r.base) |>.mpr ⟨r, hr, by simp⟩)
  rw [hb]
  have hmem := List.mem_of_find?_eq_some hb
  by_contra hne
  have hother := (h.mem_otherBlocks hr).mpr ⟨hmem, fun heq => hne (by rw [heq])⟩
  rw [Memory.otherBlocks, List.mem_filter] at hother
  have hbase := List.find?_some hb
  simp only [beq_iff_eq] at hbase
  simp [hbase] at hother

/-- The storage without the block of an object of the C heap. -/
theorem without (h : s.Owns (r :: regions)) (hsize : poolBlockSize < r.size) :
    Memory.Owns { s with blocks := s.otherBlocks r.base } regions := by
  obtain ⟨hmem, hchunk⟩ := h.heap r List.mem_cons_self hsize
  have hnodup := h.nodup
  rw [List.map_cons, List.nodup_cons] at hnodup
  have hother {b : HeapBlock} (hb : b ∈ s.blocks) (hne : b ≠ r) : b ∈ s.otherBlocks r.base :=
    (h.mem_otherBlocks hmem).mpr ⟨hb, hne⟩
  constructor
  · exact h.disjoint.sublist List.filter_sublist
  · exact fun b hb => h.positive b ((h.mem_otherBlocks hmem).mp hb).1
  · exact fun c hc => hother (h.chunk_mem c hc) (hchunk c hc)
  · exact h.chunks
  · exact h.bitmap
  · exact hnodup.2
  · intro r' hr' hlarge
    obtain ⟨hmem', hchunk'⟩ := h.heap r' (List.mem_cons_of_mem r hr') hlarge
    refine ⟨hother hmem' fun heq => hnodup.1 ?_, hchunk'⟩
    exact List.mem_map.mpr ⟨r', hr', by rw [heq]⟩
  · intro a
    change Taken s.smallPool a ↔ _
    rw [h.taken, List.exists_mem_cons_iff]
    simp only [Nat.not_le.mpr hsize, and_false, false_or]

/-- **A block goes back to the C heap.** -/
theorem libcFree (h : s.Owns (r :: regions)) (hsize : poolBlockSize < r.size) :
    s.libcFree r.base = .ok { s with blocks := s.otherBlocks r.base } := by
  rw [Memory.libcFree, h.find_block (h.heap r List.mem_cons_self hsize).1]

/-- **The storage of an object is returned.** -/
theorem returnBlock (h : s.Owns (r :: regions)) :
    ∃ u, s.returnBlock r.base = .ok u ∧ u.Owns regions ∧
      u.cycleCollectionEnabled = s.cycleCollectionEnabled := by
  rw [Memory.returnBlock]
  rcases Nat.lt_or_ge poolBlockSize r.size with hsize | hsize
  · have hnone : poolFree s.smallPool r.base = none :=
      poolFree_eq_none fun c hc => h.not_contains_of_heap List.mem_cons_self hsize hc
    exact ⟨_, by rw [hnone]; exact h.libcFree hsize, h.without hsize, rfl⟩
  · obtain ⟨chunks, hfree, howns⟩ := h.freePooled hsize
    exact ⟨_, by rw [hfree], howns, rfl⟩

end Memory.Owns

/-! ### What the C heap answers -/

/-- The C heap answers the calls that are made for an object of the given size, with
blocks that are disjoint from those in use.  When `realloc` is called, these are the
`remaining` ones. -/
def Memory.Granted (s : Memory) (size : ℕ) (supply : Supply) (remaining : List HeapBlock) :
    Prop :=
  if size ≤ poolBlockSize then
    s.needsChunk = true → ∃ base ∈ supply.chunk, Fresh s.blocks ⟨base.val, chunkSize⟩
  else ∃ grant ∈ supply.block, Fresh remaining ⟨grant.address, size⟩

instance (b c : HeapBlock) : Decidable (b.Disjoint c) :=
  inferInstanceAs (Decidable (_ ∨ _))

instance (blocks : List HeapBlock) (b : HeapBlock) : Decidable (Fresh blocks b) :=
  inferInstanceAs (Decidable (∀ c ∈ blocks, b.Disjoint c))

instance (s : Memory) (size : ℕ) (supply : Supply) (remaining : List HeapBlock) :
    Decidable (s.Granted size supply remaining) :=
  inferInstanceAs (Decidable (ite _ _ _))

/-- The blocks in use when the new block of a reallocated object is chosen: `realloc`
frees the old one at the same time. -/
def Memory.remaining (s : Memory) (p : ℕ) : List HeapBlock :=
  if (poolFree s.smallPool p).isSome then s.blocks else s.otherBlocks p

section Operations

variable {size newSize : ℕ} {supply : Supply}

theorem Memory.Owns.obtain (h : s.Owns regions) (hgranted : s.Granted size supply s.blocks) :
    ∃ p u, s.obtain size supply = .ok (p, u) ∧ u.Owns (⟨p, size⟩ :: regions) ∧
      u.cycleCollectionEnabled = s.cycleCollectionEnabled := by
  rw [Memory.Granted] at hgranted
  rw [Memory.obtain]
  split at hgranted
  next hsize =>
    obtain ⟨p, u, halloc, howns, -, hdisabled, -⟩ := h.poolAlloc hsize hgranted
    refine ⟨p, { u with bytes := setRange u.bytes p size fun _ => 0 }, ?_, howns.congr rfl rfl,
      hdisabled⟩
    rw [if_pos hsize, halloc]
  next hsize =>
    obtain ⟨grant, hgrant, hfresh⟩ := hgranted
    rw [if_neg hsize, hgrant]
    exact ⟨grant.address, _, rfl, (h.malloc grant (Nat.not_le.mp hsize) hfresh).congr rfl rfl, rfl⟩

/-- **An object moves** with its first bytes: its old storage is free, and its new
storage is its own. -/
theorem Memory.Owns.moveBlock (h : s.Owns (r :: regions))
    (hgranted : (s.unpooled r.base).Granted newSize supply (s.remaining r.base)) :
    ∃ q u, (s.unpooled r.base).moveBlock r.base r.size newSize
          (poolFree s.smallPool r.base).isSome supply = .ok (q, u) ∧
      u.Owns (⟨q, newSize⟩ :: regions) ∧
      u.cycleCollectionEnabled = s.cycleCollectionEnabled ∧
      ∀ i < min r.size newSize, u.bytes (q + i) = s.bytes (r.base + i) := by
  obtain ⟨b, hb, -, hcontains⟩ := h.exists_block List.mem_cons_self
  rcases Nat.lt_or_ge poolBlockSize r.size with hlarge | hsmall
  · -- the old block is of the C heap
    have hnone : poolFree s.smallPool r.base = none :=
      poolFree_eq_none fun c hc => h.not_contains_of_heap List.mem_cons_self hlarge hc
    have hunpooled : s.unpooled r.base = s := by
      rw [Memory.unpooled, hnone]
      rfl
    rw [Memory.remaining, hnone, hunpooled] at hgranted
    rw [hnone, hunpooled, Memory.moveBlock]
    rw [Memory.Granted] at hgranted
    split at hgranted
    next hsize =>
      obtain ⟨q, u, halloc, howns, -, hdisabled, hkept⟩ := h.poolAlloc hsize hgranted
      have hswapped := howns.perm (List.Perm.swap r ⟨q, newSize⟩ regions)
      have hcopied : Memory.Owns
          { u with bytes := copyBytes u.bytes q r.base (min r.size newSize) }
          (r :: ⟨q, newSize⟩ :: regions) := hswapped.congr rfl rfl
      refine ⟨q, _, ?_, hcopied.without hlarge, hdisabled, ?_⟩
      · rw [if_pos hsize, halloc]
        simp only [Memory.freeUnlessPooled, Option.isSome_none, Bool.false_eq_true, if_false,
          hcopied.libcFree hlarge]
        rfl
      · intro i hi
        have hrange : q ≤ q + i ∧ q + i < q + min r.size newSize := by omega
        simp only [copyBytes, setRange, if_pos hrange, Nat.add_sub_cancel_left]
        exact (hkept b hb).2 _ (hcontains i (by omega))
    next hsize =>
      obtain ⟨grant, hgrant, hfresh⟩ := hgranted
      have hmem := (h.heap r List.mem_cons_self hlarge).1
      have howns := (h.without hlarge).malloc grant (Nat.not_le.mp hsize) hfresh
      refine ⟨grant.address, { s with
        blocks := ⟨grant.address, newSize⟩ :: s.otherBlocks r.base
        bytes := setRange s.bytes grant.address newSize fun i =>
          if i < r.size then s.bytes (r.base + i) else grant.contents i },
        ?_, howns.congr rfl rfl, rfl, ?_⟩
      · rw [if_neg hsize, hgrant]
        simp only [granted, Memory.libcRealloc, h.find_block hmem]
        rfl
      · intro i hi
        have hrange : grant.address.val ≤ grant.address.val + i ∧
            grant.address.val + i < grant.address.val + newSize := by omega
        simp only [setRange, if_pos hrange, Nat.add_sub_cancel_left]
        exact if_pos (by omega)
  · -- the old block is of the pool
    obtain ⟨chunks, hfree, howns⟩ := h.freePooled hsmall
    have hunpooled : s.unpooled r.base = { s with smallPool := chunks } := by
      rw [Memory.unpooled, hfree]
      rfl
    rw [Memory.remaining, hfree, hunpooled] at hgranted
    rw [hfree, hunpooled, Memory.moveBlock]
    rw [Memory.Granted] at hgranted
    split at hgranted
    next hsize =>
      obtain ⟨q, u, halloc, howns', -, hdisabled, hkept⟩ := howns.poolAlloc hsize hgranted
      refine ⟨q, { u with bytes := copyBytes u.bytes q r.base (min r.size newSize) }, ?_,
        howns'.congr rfl rfl, hdisabled, ?_⟩
      · rw [if_pos hsize, halloc]
        rfl
      · intro i hi
        have hrange : q ≤ q + i ∧ q + i < q + min r.size newSize := by omega
        simp only [copyBytes, setRange, if_pos hrange, Nat.add_sub_cancel_left]
        exact (hkept b hb).2 _ (hcontains i (by omega))
    next hsize =>
      obtain ⟨grant, hgrant, hfresh⟩ := hgranted
      have howns' := howns.malloc grant (Nat.not_le.mp hsize) hfresh
      refine ⟨grant.address, { Memory.malloc { s with smallPool := chunks } newSize grant with
        bytes := copyBytes (Memory.malloc { s with smallPool := chunks } newSize grant).bytes
          grant.address r.base (min r.size newSize) }, ?_, howns'.congr rfl rfl, rfl, ?_⟩
      · rw [if_neg hsize, hgrant]
        rfl
      · intro i hi
        have hrange : grant.address.val ≤ grant.address.val + i ∧
            grant.address.val + i < grant.address.val + min r.size newSize := by omega
        simp only [copyBytes, setRange, if_pos hrange, Nat.add_sub_cancel_left]
        -- the old bytes are not in the fresh block
        have hout : ¬ (grant.address.val ≤ r.base + i ∧ r.base + i < grant.address.val + newSize) :=
          fun hin => (hfresh b hb).not_contains hin (hcontains i (by omega))
        exact if_neg hout

end Operations

end BreadLang
