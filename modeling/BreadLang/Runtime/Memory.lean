import BreadLang.Core.Value
import BreadLang.Library.Bitmap
import BreadLang.Library.Run

/-!
# The memory manager

`memory.c`: objects of at most 64 bytes live in the blocks of a pool, the others
in blocks of the C heap.  A chunk of the pool has 256 blocks, and a bitmap of those
that are free.  Every object has a node in a list, newest first, and counters are
kept of what has been allocated and freed.  The collector marks what can be reached
from a counted object or from a root, and frees the unmarked objects whose count is
zero.

### Representation choices

Memory is a function from addresses, which are natural numbers, to bytes.
`blocks` are the blocks that `malloc`, `calloc` and `realloc` have returned and
`free` has not taken back.  The addresses they return are parameters of the
operations, and so are the contents of a new block, which are unspecified; `none` is
the null pointer.  The kind and the count of an object are its first eight bytes.
How the members of the objects lie behind them is left to a `Layout`.

The cumulative counters wrap, as a `size_t` does.  The number of objects is a
natural number: each has a node, so there are fewer of them than addresses.  The
blocks of the nodes, of the array of roots and of the mark stack are not part of
the model, and neither is the debug mode, which only prints.
-/

namespace BreadLang

/-! ### Bytes -/

/-- The contents of memory. -/
abbrev Bytes := ℕ → UInt8

/-- `memset` and `memcpy`: the bytes of a range are those that a function gives. -/
def setRange (bytes : Bytes) (start size : ℕ) (f : ℕ → UInt8) : Bytes :=
  fun a => if start ≤ a ∧ a < start + size then f (a - start) else bytes a

/-- `memcpy`. -/
def copyBytes (bytes : Bytes) (dst src size : ℕ) : Bytes :=
  setRange bytes dst size fun i => bytes (src + i)

/-- The `uint32_t` at an address. -/
def readUInt32 (bytes : Bytes) (a : ℕ) : UInt32 :=
  .ofNat ((bytes a).toNat + 256 * (bytes (a + 1)).toNat + 65536 * (bytes (a + 2)).toNat +
    16777216 * (bytes (a + 3)).toNat)

/-- Store a `uint32_t`. -/
def writeUInt32 (bytes : Bytes) (a : ℕ) (n : UInt32) : Bytes :=
  setRange bytes a 4 fun i => .ofNat (n.toNat / 256 ^ i)

/-- `BreadObjKind`. -/
inductive ObjKind where
  | unknown
  | string
  | array
  | dict
  | optional
  | struct
  | class : ObjKind
  deriving DecidableEq

/-- The number of a kind. -/
def ObjKind.code : ObjKind → UInt32
  | .unknown => 0
  | .string => 1
  | .array => 2
  | .dict => 3
  | .optional => 4
  | .struct => 5
  | .class => 6

/-- The case of a `switch` on a kind that a number gets to. -/
def ObjKind.ofCode (n : UInt32) : ObjKind :=
  if n = 1 then .string else if n = 2 then .array else if n = 3 then .dict
  else if n = 4 then .optional else if n = 5 then .struct else if n = 6 then .class
  else .unknown

/-- `hdr->kind`. -/
def kindOf (bytes : Bytes) (object : ℕ) : ObjKind :=
  .ofCode (readUInt32 bytes object)

/-- `hdr->refcount`. -/
def refcount (bytes : Bytes) (object : ℕ) : UInt32 :=
  readUInt32 bytes (object + 4)

/-- The header of a new object. -/
def writeHeader (bytes : Bytes) (object : ℕ) (kind : ObjKind) : Bytes :=
  writeUInt32 (writeUInt32 bytes object kind.code) (object + 4) 1

/-! ### The state -/

/-- A pointer that is not null. -/
abbrev NonNull := { a : ℕ // a ≠ 0 }

/-- The address after the given one. -/
def NonNull.next (a : ℕ) : NonNull :=
  ⟨a + 1, Nat.succ_ne_zero a⟩

/-- `BreadMemoryChunk`.  Its blocks start at `base`. -/
structure Chunk where
  base : NonNull
  freeBitmap : List (BitVec 64)
  freeCount : ℕ

/-- `BREAD_POOL_BLOCK_SIZE`. -/
def poolBlockSize : ℕ := 64

/-- `BREAD_POOL_BLOCKS_PER_CHUNK`. -/
def poolBlocksPerChunk : ℕ := 256

/-- The size of the blocks of a chunk. -/
def poolBlocksSize : ℕ := poolBlocksPerChunk * poolBlockSize

/-- `sizeof(BreadMemoryChunk)`: the blocks, the bitmap, `next` and `free_count`. -/
def chunkSize : ℕ := poolBlocksSize + 32 + 8 + 8

/-- The address of a block. -/
def Chunk.block (c : Chunk) (i : ℕ) : ℕ := c.base.val + poolBlockSize * i

/-- `BreadObjectNode`. -/
structure ObjectNode where
  object : ℕ
  size : ℕ
  kind : ObjKind
  marked : Bool

/-- `marked = 0`. -/
def ObjectNode.unmark (n : ObjectNode) : ObjectNode :=
  { n with marked := false }

/-- `BreadMemoryStats`. -/
structure MemoryStats where
  totalAllocations : UInt64 := 0
  totalDeallocations : UInt64 := 0
  currentObjects : ℕ := 0
  peakObjects : ℕ := 0
  bytesAllocated : UInt64 := 0
  bytesFreed : UInt64 := 0

/-- `BreadMemoryManager`, with the values that `bread_memory_ensure_init` gives. -/
structure MemoryManager where
  allObjects : List ObjectNode := []
  smallPool : List Chunk := []
  cycleCollectionEnabled : Bool := false
  gcThreshold : UInt64 := 1000
  allocationsSinceGc : UInt64 := 0
  bytesThreshold : UInt64 := 1024 * 1024
  bytesSinceGc : UInt64 := 0
  stats : MemoryStats := {}
  autoGcEnabled : Bool := true
  gcRoots : List ℕ := []
  gcRootCapacity : ℕ := 0

/-- A block of the C heap. -/
structure HeapBlock where
  base : ℕ
  size : ℕ
  deriving DecidableEq

/-- The manager in the memory of the process. -/
structure Memory extends MemoryManager where
  bytes : Bytes
  blocks : List HeapBlock := []
  initialized : Bool := true

/-- `bread_memory_init`, in a process that has not allocated anything. -/
def Memory.init (bytes : Bytes) : Memory where
  bytes := bytes

/-- A block that the C heap grants: its address, and what it holds. -/
structure Grant where
  address : NonNull
  contents : ℕ → UInt8

/-- What the C heap answers in an operation: to the request for a chunk, and to that
for a block. -/
structure Supply where
  chunk : Option NonNull
  block : Option Grant

/-! ### The C heap -/

/-- `malloc`. -/
def Memory.malloc (s : Memory) (size : ℕ) (grant : Grant) : Memory :=
  { s with
    blocks := ⟨grant.address, size⟩ :: s.blocks
    bytes := setRange s.bytes grant.address size grant.contents }

/-- The blocks that do not start at an address. -/
def Memory.otherBlocks (s : Memory) (p : ℕ) : List HeapBlock :=
  s.blocks.filter fun b => b.base != p

/-- `free`. -/
def Memory.libcFree (s : Memory) (p : ℕ) : Exec Memory :=
  match s.blocks.find? fun b => b.base == p with
  | some _ => .ok { s with blocks := s.otherBlocks p }
  | none => .error (.undefined .useAfterFree)

/-- `realloc`. -/
def Memory.libcRealloc (s : Memory) (p : ℕ) (size : ℕ) (grant : Grant) : Exec Memory :=
  match s.blocks.find? fun b => b.base == p with
  | some block =>
      .ok { s with
        blocks := ⟨grant.address, size⟩ :: s.otherBlocks p
        bytes := setRange s.bytes grant.address size fun i =>
          if i < block.size then s.bytes (p + i) else grant.contents i }
  | none => .error (.undefined .useAfterFree)

/-- `BREAD_ERROR_SET_MEMORY_ALLOCATION`, which ends the process. -/
def memoryError (message : String) : Stop :=
  .abort ⟨.memoryAllocation, message⟩

/-- The grant of a block, or the error for a null pointer. -/
def granted (grant : Option Grant) : Exec Grant :=
  match grant with
  | some grant => .ok grant
  | none => .error (memoryError "Out of memory")

/-! ### The pool -/

/-- `bread_pool_alloc_chunk`, and the new chunk is put in front. -/
def Memory.addChunk (s : Memory) (base : NonNull) : Memory :=
  { s with
    blocks := ⟨base, chunkSize⟩ :: s.blocks
    bytes := setRange s.bytes base poolBlocksSize fun _ => 0
    smallPool := ⟨base, List.replicate (poolBlocksPerChunk / 64) (BitVec.allOnes 64),
      poolBlocksPerChunk⟩ :: s.smallPool }

/-- The first free block of the first chunk. -/
def Memory.takeBlock (s : Memory) : Option (ℕ × Memory) :=
  match s.smallPool with
  | [] => none
  | c :: chunks =>
      (Bitmap.takeFirst c.freeBitmap).map fun (i, freeBitmap) =>
        (c.block i,
          { s with smallPool := { c with freeBitmap, freeCount := c.freeCount - 1 } :: chunks })

/-- Whether `bread_pool_alloc` asks for a new chunk. -/
def Memory.needsChunk (s : Memory) : Bool :=
  match s.smallPool with
  | [] => true
  | c :: _ => c.freeCount == 0

/-- `bread_pool_alloc`. -/
def Memory.poolAlloc (s : Memory) (chunk : Option NonNull) : Option (ℕ × Memory) :=
  if s.needsChunk then chunk.bind fun base => (s.addChunk base).takeBlock
  else s.takeBlock

/-- The loop of `bread_pool_free`. -/
def poolFree : List Chunk → ℕ → Option (List Chunk)
  | [], _ => none
  | c :: chunks, p =>
      if c.base.val ≤ p ∧ p < c.base.val + poolBlocksSize then
        let index := (p - c.base.val) / poolBlockSize
        some ({ c with
          freeBitmap := Bitmap.add c.freeBitmap index
          freeCount := c.freeCount + 1 } :: chunks)
      else (poolFree chunks p).map (c :: ·)

/-- The end of an object: its block goes back to the pool, or else to the C heap. -/
def Memory.returnBlock (s : Memory) (p : ℕ) : Exec Memory :=
  match poolFree s.smallPool p with
  | some chunks => .ok { s with smallPool := chunks }
  | none => s.libcFree p

/-! ### The list of objects -/

/-- `bread_memory_find_node`. -/
def findNode (nodes : List ObjectNode) (object : ℕ) : Option ObjectNode :=
  if object = 0 then none else nodes.find? fun n => n.object == object

/-- Change the first node of an object. -/
def modifyNode (object : ℕ) (f : ObjectNode → ObjectNode) : List ObjectNode → List ObjectNode
  | [] => []
  | n :: nodes => if n.object = object then f n :: nodes else n :: modifyNode object f nodes

/-- The counters when an object is tracked. -/
def MemoryStats.tracked (stats : MemoryStats) : MemoryStats :=
  { stats with
    totalAllocations := stats.totalAllocations + 1
    currentObjects := stats.currentObjects + 1
    peakObjects := max (stats.currentObjects + 1) stats.peakObjects }

/-- The counters when an object of the given size is gone. -/
def MemoryStats.untracked (stats : MemoryStats) (size : ℕ) : MemoryStats :=
  { stats with
    bytesFreed := stats.bytesFreed + UInt64.ofNat size
    totalDeallocations := stats.totalDeallocations + 1
    currentObjects := stats.currentObjects - 1 }

/-- `bread_memory_track_object_internal`. -/
def Memory.track (s : Memory) (object : ℕ) (size : ℕ) (kind : ObjKind) : Memory :=
  if object = 0 then s
  else
    { s with
      allObjects := ⟨object, size, kind, false⟩ :: s.allObjects
      stats := s.stats.tracked }

/-- `bread_memory_untrack_object_internal`. -/
def Memory.untrack (s : Memory) (object : ℕ) : Memory :=
  match findNode s.allObjects object with
  | some node =>
      { s with
        allObjects := s.allObjects.eraseP fun n => n.object == object
        stats := s.stats.untracked node.size }
  | none => s

/-! ### Marking -/

/-- A `BreadValue` in an object: the tag, and the union as a pointer. -/
structure StoredValue where
  type : VarType
  pointer : ℕ

/-- A `BreadDictEntry` in an object. -/
structure StoredEntry where
  key : StoredValue
  value : StoredValue
  isOccupied : Bool
  isDeleted : Bool

/-- How the objects lie in memory: the members that the collector reads, for an
object at a given address.  A null array is `none`. -/
structure Layout where
  arrayItems : Bytes → ℕ → Option (List StoredValue)
  dictEntries : Bytes → ℕ → Option (List StoredEntry)
  optionalIsSome : Bytes → ℕ → Bool
  optionalValue : Bytes → ℕ → StoredValue
  structFieldValues : Bytes → ℕ → Option (List StoredValue)
  classFieldValues : Bytes → ℕ → Option (List StoredValue)

/-- Objects without members. -/
instance : Inhabited Layout where
  default :=
    { arrayItems := fun _ _ => none
      dictEntries := fun _ _ => none
      optionalIsSome := fun _ _ => false
      optionalValue := fun _ _ => ⟨.typeNil, 0⟩
      structFieldValues := fun _ _ => none
      classFieldValues := fun _ _ => none }

/-- The object a value points to, or null. -/
def StoredValue.child (v : StoredValue) : ℕ :=
  match v.type with
  | .typeString | .typeArray | .typeDict | .typeOptional | .typeStruct | .typeClass => v.pointer
  | _ => 0

/-- The values of an object that `bread_memory_mark_reachable` goes through. -/
def storedValues (layout : Layout) (bytes : Bytes) (object : ℕ) : List StoredValue :=
  match kindOf bytes object with
  | .array => (layout.arrayItems bytes object).getD []
  | .dict =>
      ((layout.dictEntries bytes object).getD []).flatMap fun entry =>
        if entry.isOccupied && !entry.isDeleted then [entry.key, entry.value] else []
  | .optional =>
      if layout.optionalIsSome bytes object then [layout.optionalValue bytes object] else []
  | .struct => (layout.structFieldValues bytes object).getD []
  | .class => (layout.classFieldValues bytes object).getD []
  | .string | .unknown => []

/-- `BREAD_MAX_STACK_DEPTH`. -/
def maxStackDepth : ℕ := 8192

/-- `bread_memory_mark_value`.  A value is dropped when the stack is full. -/
def markValue (nodes : List ObjectNode) (stack : List ℕ) (v : StoredValue) : List ℕ :=
  if maxStackDepth ≤ stack.length then stack
  else
    match findNode nodes v.child with
    | some node => if node.marked then stack else v.child :: stack
    | none => stack

/-- `cur->marked = 1`. -/
def markNode (nodes : List ObjectNode) (object : ℕ) : List ObjectNode :=
  modifyNode object (fun n => { n with marked := true }) nodes

/-- The number of nodes that are not marked. -/
def unmarkedCount (nodes : List ObjectNode) : ℕ :=
  nodes.countP fun n => !n.marked

theorem unmarkedCount_markNode_lt {nodes : List ObjectNode} {object : ℕ} {node : ObjectNode}
    (hfind : findNode nodes object = some node) (hmarked : node.marked = false) :
    unmarkedCount (markNode nodes object) < unmarkedCount nodes := by
  have hobject : object ≠ 0 := by
    rintro rfl
    rw [findNode, if_pos rfl] at hfind
    cases hfind
  rw [findNode, if_neg hobject] at hfind
  induction nodes with
  | nil => cases hfind
  | cons n nodes ih =>
      unfold markNode modifyNode
      by_cases hn : n.object = object
      · rw [List.find?_cons_of_pos (by simpa using hn)] at hfind
        obtain rfl := Option.some.inj hfind
        simp [unmarkedCount, hn, hmarked]
      · rw [List.find?_cons_of_neg (by simpa using hn)] at hfind
        have hlt := ih hfind
        rw [if_neg hn]
        simp only [unmarkedCount, List.countP_cons] at hlt ⊢
        exact Nat.add_lt_add_right hlt _

/-- The loop of `bread_memory_mark_reachable`.  The stack has its top first, and
holds the addresses of the objects. -/
def markLoop (layout : Layout) (bytes : Bytes) (nodes : List ObjectNode) (stack : List ℕ) :
    List ObjectNode :=
  match stack with
  | [] => nodes
  | object :: stack =>
      match hfind : findNode nodes object with
      | none => markLoop layout bytes nodes stack
      | some node =>
          if hmarked : node.marked then markLoop layout bytes nodes stack
          else
            have := unmarkedCount_markNode_lt hfind (Bool.of_not_eq_true hmarked)
            let marked := markNode nodes object
            markLoop layout bytes marked
              ((storedValues layout bytes object).foldl (markValue marked) stack)
termination_by (unmarkedCount nodes, stack.length)

/-- `bread_memory_mark_reachable`. -/
def markReachable (layout : Layout) (bytes : Bytes) (nodes : List ObjectNode) (root : ℕ) :
    List ObjectNode :=
  match findNode nodes root with
  | none => nodes
  | some start => if start.marked then nodes else markLoop layout bytes nodes [root]

/-! ### Sweeping -/

/-- The loop of `bread_memory_sweep_unreachable` from some node on: what it leaves of
the list. -/
def Memory.sweepFrom (s : Memory) : List ObjectNode → Exec (Memory × List ObjectNode)
  | [] => .ok (s, [])
  | node :: nodes =>
      if node.marked = false ∧ node.object ≠ 0 ∧ refcount s.bytes node.object = 0 then do
        let s ← s.returnBlock node.object
        Memory.sweepFrom { s with stats := s.stats.untracked node.size } nodes
      else do
        let (s, kept) ← s.sweepFrom nodes
        return (s, node :: kept)

/-- `bread_memory_sweep_unreachable`. -/
def Memory.sweepUnreachable (s : Memory) : Exec Memory := do
  let (s, kept) ← s.sweepFrom s.allObjects
  return { s with allObjects := kept }

/-- The marks that `bread_memory_collect_cycles` sets: from every counted object, and
from every root. -/
def Memory.markAll (layout : Layout) (s : Memory) : List ObjectNode :=
  let cleared := s.allObjects.map ObjectNode.unmark
  let counted := s.allObjects.filter fun n => n.object != 0 && refcount s.bytes n.object != 0
  (counted.map ObjectNode.object ++ s.gcRoots).foldl (markReachable layout s.bytes) cleared

/-- The end of a collection: the counters start again, and the threshold grows when
little has been freed. -/
def Memory.collected (s : Memory) (objectsBefore : ℕ) : Memory :=
  { s with
    allocationsSinceGc := 0
    bytesSinceGc := 0
    gcThreshold :=
      if objectsBefore - s.stats.currentObjects < (s.gcThreshold / 10).toNat
      then s.gcThreshold * 3 / 2 else s.gcThreshold }

/-- `bread_memory_collect_cycles`. -/
def Memory.collectCycles (layout : Layout) (s : Memory) : Exec Memory :=
  if s.cycleCollectionEnabled then do
    let swept ← { s with allObjects := s.markAll layout }.sweepUnreachable
    return swept.collected s.stats.currentObjects
  else .ok s

/-- `bread_memory_should_trigger_gc`. -/
def Memory.shouldTriggerGc (s : Memory) : Bool :=
  s.autoGcEnabled && s.cycleCollectionEnabled &&
    (s.gcThreshold ≤ s.allocationsSinceGc || s.bytesThreshold ≤ s.bytesSinceGc)

/-! ### Allocation -/

/-- A block for an object, of the pool where it fits and of the C heap otherwise, with
the bytes of the object set to zero. -/
def Memory.obtain (s : Memory) (size : ℕ) (supply : Supply) : Exec (ℕ × Memory) :=
  match (if size ≤ poolBlockSize then s.poolAlloc supply.chunk else none) with
  | some (p, s) => .ok (p, { s with bytes := setRange s.bytes p size fun _ => 0 })
  | none => do
      let grant ← granted supply.block
      let s := s.malloc size grant
      return (grant.address, { s with bytes := setRange s.bytes grant.address size fun _ => 0 })

/-- `bread_memory_alloc` up to the collection it may trigger. -/
def Memory.allocObject (s : Memory) (size : ℕ) (kind : ObjKind) (supply : Supply) :
    Exec (ℕ × Memory) := do
  let (p, s) ← s.obtain size supply
  let s := { s with
    bytes := writeHeader s.bytes p kind
    stats := { s.stats with bytesAllocated := s.stats.bytesAllocated + UInt64.ofNat size }
    allocationsSinceGc := s.allocationsSinceGc + 1
    bytesSinceGc := s.bytesSinceGc + UInt64.ofNat size }
  return (p, s.track p size kind)

/-- `bread_memory_alloc`. -/
def Memory.alloc (layout : Layout) (s : Memory) (size : ℕ) (kind : ObjKind) (supply : Supply) :
    Exec (ℕ × Memory) := do
  let (p, s) ← s.allocObject size kind supply
  if s.shouldTriggerGc then do
    let s ← s.collectCycles layout
    return (p, s)
  else return (p, s)

/-- The old block after the bytes have been copied: it may have gone back already. -/
def Memory.freeUnlessPooled (s : Memory) (p : ℕ) (wasPooled : Bool) : Exec Memory :=
  if wasPooled then .ok s else s.libcFree p

/-- The new block of `bread_memory_realloc`, after the old one has been given back to
the pool if it is from there. -/
def Memory.moveBlock (s : Memory) (p : ℕ) (oldSize newSize : ℕ) (wasPooled : Bool)
    (supply : Supply) : Exec (ℕ × Memory) :=
  match (if newSize ≤ poolBlockSize then s.poolAlloc supply.chunk else none) with
  | some (q, s) => do
      let s := { s with bytes := copyBytes s.bytes q p (min oldSize newSize) }
      let s ← s.freeUnlessPooled p wasPooled
      return (q, s)
  | none => do
      let grant ← granted supply.block
      if wasPooled then
        let s := s.malloc newSize grant
        return (grant.address,
          { s with bytes := copyBytes s.bytes grant.address p (min oldSize newSize) })
      else do
        let s ← s.libcRealloc p newSize grant
        return (grant.address, s)

/-- The counters and the new bytes of a reallocated object. -/
def Memory.resized (s : Memory) (q : ℕ) (oldSize newSize : ℕ) : Memory :=
  if oldSize < newSize then
    { s with
      bytes := setRange s.bytes (q + oldSize) (newSize - oldSize) fun _ => 0
      stats := { s.stats with
        bytesAllocated := s.stats.bytesAllocated + UInt64.ofNat (newSize - oldSize) }
      bytesSinceGc := s.bytesSinceGc + UInt64.ofNat (newSize - oldSize) }
  else
    { s with
      stats := { s.stats with bytesFreed := s.stats.bytesFreed + UInt64.ofNat (oldSize - newSize) } }

/-- `bread_memory_realloc`. -/
def Memory.realloc (layout : Layout) (s : Memory) (p : ℕ) (newSize : ℕ) (supply : Supply) :
    Exec (ℕ × Memory) :=
  if p = 0 then s.alloc layout newSize .string supply
  else do
    let oldSize := ((findNode s.allObjects p).map ObjectNode.size).getD 0
    let freed := poolFree s.smallPool p
    let s := { s with smallPool := freed.getD s.smallPool }
    let (q, s) ← s.moveBlock p oldSize newSize freed.isSome supply
    let s := s.resized q oldSize newSize
    return (q, { s with
      allObjects := modifyNode p (fun n => { n with object := q, size := newSize }) s.allObjects })

/-- `bread_memory_free`. -/
def Memory.free (s : Memory) (p : ℕ) : Exec Memory :=
  if p = 0 then .ok s else (s.untrack p).returnBlock p

/-- `bread_memory_check_leaks`. -/
def Memory.checkLeaks (s : Memory) : Bool :=
  s.initialized && s.stats.currentObjects != 0

/-! ### Counts -/

/-- `bread_object_retain`. -/
def Memory.retain (s : Memory) (object : ℕ) : Exec Memory :=
  if object = 0 then .ok s
  else if refcount s.bytes object = 0xFFFFFFFF then .error (memoryError "Refcount overflow")
  else
    .ok { s with bytes := writeUInt32 s.bytes (object + 4) (refcount s.bytes object + 1) }

/-- `bread_object_release`. -/
def Memory.release (s : Memory) (object : ℕ) : Exec Memory :=
  if object = 0 then .ok s
  else if refcount s.bytes object = 0 then .error (memoryError "Double free detected")
  else
    let s' :=
      { s with bytes := writeUInt32 s.bytes (object + 4) (refcount s.bytes object - 1) }
    if refcount s'.bytes object = 0 then s'.free object else .ok s'

/-! ### Roots and settings -/

/-- `bread_memory_add_root`.  The array of roots may have to grow. -/
def Memory.addRoot (s : Memory) (root : ℕ) (grows : Bool) : Memory :=
  if root = 0 then s
  else if s.gcRootCapacity ≤ s.gcRoots.length then
    if grows then
      { s with
        gcRootCapacity := if s.gcRootCapacity = 0 then 16 else s.gcRootCapacity * 2
        gcRoots := s.gcRoots ++ [root] }
    else s
  else { s with gcRoots := s.gcRoots ++ [root] }

/-- The loop of `bread_memory_remove_root`: the last root takes the place of the
first one that is equal. -/
def removeRoot (roots : List ℕ) (root : ℕ) : List ℕ :=
  match roots.findIdx? (· == root), roots.getLast? with
  | some index, some last => (roots.set index last).dropLast
  | _, _ => roots

/-- `bread_memory_set_cycle_collection_threshold`. -/
def Memory.setThreshold (s : Memory) (threshold : ℤ) : Memory :=
  if threshold ≤ 0 then { s with cycleCollectionEnabled := false, gcThreshold := 0 }
  else { s with cycleCollectionEnabled := true, gcThreshold := .ofNat threshold.toNat }

/-! ### Runs -/

/-- The operations on the manager, and the writes of the program to the bytes of its
objects. -/
inductive MemoryOp where
  | alloc (size : ℕ) (kind : ObjKind) (supply : Supply)
  | realloc (p : ℕ) (size : ℕ) (supply : Supply)
  | free (p : ℕ)
  | retain (p : ℕ)
  | release (p : ℕ)
  | collectCycles
  | sweepUnreachable
  | addRoot (root : ℕ) (grows : Bool)
  | removeRoot (root : ℕ)
  | setThreshold (threshold : ℤ)
  | enableAutoGc (enable : Bool)
  | setBytesThreshold (threshold : UInt64)
  | write (address : ℕ) (byte : UInt8)

/-- One operation.  It returns the address of an allocation, and null otherwise. -/
def Memory.step (layout : Layout) (s : Memory) : MemoryOp → Exec (Memory × ℕ)
  | .alloc size kind supply => do
      let (p, s) ← s.alloc layout size kind supply
      return (s, p)
  | .realloc p size supply => do
      let (q, s) ← s.realloc layout p size supply
      return (s, q)
  | .free p => do return (← s.free p, 0)
  | .retain p => do return (← s.retain p, 0)
  | .release p => do return (← s.release p, 0)
  | .collectCycles => do return (← s.collectCycles layout, 0)
  | .sweepUnreachable => do return (← s.sweepUnreachable, 0)
  | .addRoot root grows => .ok (s.addRoot root grows, 0)
  | .removeRoot root => .ok ({ s with gcRoots := BreadLang.removeRoot s.gcRoots root }, 0)
  | .setThreshold threshold => .ok (s.setThreshold threshold, 0)
  | .enableAutoGc enable => .ok ({ s with autoGcEnabled := enable }, 0)
  | .setBytesThreshold threshold => .ok ({ s with bytesThreshold := threshold }, 0)
  | .write address byte => .ok ({ s with bytes := setRange s.bytes address 1 fun _ => byte }, 0)

/-- Whether an address is that of an object that is tracked. -/
def Memory.Live (s : Memory) (p : ℕ) : Prop :=
  ∃ n ∈ s.allObjects, n.object = p

instance (s : Memory) (p : ℕ) : Decidable (s.Live p) :=
  inferInstanceAs (Decidable (∃ n ∈ s.allObjects, n.object = p))

end BreadLang
