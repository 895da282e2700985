import BreadLang.Runtime.Collector
import Mathlib.Algebra.Order.BigOperators.Group.List
import Mathlib.Algebra.Order.Ring.Nat

/-!
# Which garbage a collection frees

A set of objects is garbage when no root reaches it and all the counts of its members
are references from within the set.  A collection frees such a set exactly when the
counts of its members are zero, so it never frees a cycle.

The heap is that of the allocator, and its counts count the references that the
objects hold.  These are those that the collector follows, and maybe others: an
instance of a class holds a reference to the parent class, which the collector does
not go through.
-/

namespace BreadLang

open Relation

variable {layout : Layout} {s : Memory} {a b : ℕ}

/-- The references that the objects hold. -/
structure HeldReferences (layout : Layout) where
  held : Bytes → ℕ → List ℕ
  covers : ∀ bytes a b, Follows layout bytes a b → b ∈ held bytes a

namespace HeldReferences

variable (references : HeldReferences layout)

/-- The number of references that all objects hold to one. -/
def countAll (s : Memory) (a : ℕ) : ℕ :=
  (s.allObjects.map fun n => (references.held s.bytes n.object).count a).sum

/-- The number of references that the members of a set hold to an object. -/
def countFrom (s : Memory) (S : Finset ℕ) (a : ℕ) : ℕ :=
  ((s.allObjects.filter fun n => n.object ∈ S).map fun n =>
    (references.held s.bytes n.object).count a).sum

/-- A live object holds a reference to another one. -/
def Holds (s : Memory) (a b : ℕ) : Prop :=
  s.Live a ∧ b ∈ references.held s.bytes a

/-- A root reaches an object. -/
def Rooted (s : Memory) (a : ℕ) : Prop :=
  ∃ root ∈ s.gcRoots, s.Live root ∧ ReflTransGen (references.Holds s) root a

/-- The counts count the references. -/
structure CountedHeap (s : Memory) : Prop where
  owns : s.Owns (s.allObjects.map ObjectNode.region)
  counted : ∀ n ∈ s.allObjects, references.countAll s n.object ≤
    (refcount s.bytes n.object).toNat

/-- **A set of objects is garbage**: no root reaches it, and its counts are accounted
for by references from within it. -/
structure Garbage (s : Memory) (S : Finset ℕ) : Prop where
  live : ∀ a ∈ S, s.Live a
  unreachable : ∀ a ∈ S, ¬ references.Rooted s a
  accounted : ∀ a ∈ S, (refcount s.bytes a).toNat = references.countFrom s S a

/-- **A collection frees a set**, and no object that a root reaches or that has a count
from outside the set. -/
def Reclaims (s : Memory) (S : Finset ℕ) : Prop :=
  ∃ s', s.collectCycles layout = .ok s' ∧ (∀ a ∈ S, ¬ s'.Live a) ∧
    ∀ a, s.Live a →
      references.Rooted s a ∨ references.countFrom s S a < (refcount s.bytes a).toNat →
        s'.Live a

variable {references}

/-- An object that another one refers to has a count. -/
theorem CountedHeap.refcount_ne_zero (h : references.CountedHeap s)
    (hholds : references.Holds s a b) (hlive : s.Live b) : refcount s.bytes b ≠ 0 := by
  obtain ⟨⟨n, hn, rfl⟩, hmem⟩ := hholds
  obtain ⟨m, hm, rfl⟩ := hlive
  intro hzero
  have hcounted := h.counted m hm
  rw [hzero, countAll] at hcounted
  have hone : 0 < (references.held s.bytes n.object).count m.object :=
    List.count_pos_iff.mpr hmem
  have hle := List.le_sum_of_mem (List.mem_map_of_mem (f := fun n : ObjectNode =>
    (references.held s.bytes n.object).count m.object) hn)
  have hpositive := hone.trans_le (hle.trans hcounted)
  exact absurd hpositive (Nat.lt_irrefl 0)

/-- **A collection frees garbage exactly when its counts are zero.** -/
theorem collectCycles_reclaims_iff (layout : Layout) (references : HeldReferences layout)
    (s : Memory) (hheap : references.CountedHeap s) (henabled : s.cycleCollectionEnabled = true)
    (S : Finset ℕ) (hgarbage : references.Garbage s S) :
    references.Reclaims s S ↔ ∀ a ∈ S, refcount s.bytes a = 0 := by
  obtain ⟨s', hcollect, hlive⟩ := collectCycles_live layout hheap.owns henabled
  constructor
  · rintro ⟨t, ht, hfreed, -⟩ a ha
    rw [hcollect] at ht
    cases ht
    by_contra hcount
    exact hfreed a ha ((hlive a).mpr ⟨hgarbage.live a ha, .inr hcount⟩)
  · intro hzero
    refine ⟨s', hcollect, fun a ha hlive' => ?_, fun a ha hkept => ?_⟩
    · obtain ⟨halive, hmarked | hcount⟩ := (hlive a).mp hlive'
      · -- the last step to a marked member comes from a live object, or it is a start
        obtain ⟨start, hstart, horigin, hreach⟩ := markAll_sound hmarked
        rcases hreach.cases_tail with rfl | ⟨b, -, hb, hfollows⟩
        · rcases horigin with hcount | hroot
          · exact hcount (hzero _ ha)
          · exact hgarbage.unreachable _ ha ⟨_, hroot, hstart, .refl⟩
        · exact hheap.refcount_ne_zero ⟨hb, references.covers _ _ _ hfollows⟩ halive (hzero a ha)
      · exact hcount (hzero a ha)
    · refine (hlive a).mpr ⟨ha, ?_⟩
      rcases hkept with ⟨root, hroot, -, hreach⟩ | hcount
      · rcases hreach.cases_tail with rfl | ⟨b, -, hholds⟩
        · obtain ⟨n, hn, rfl⟩ := ha
          have hne := hheap.owns.base_ne_zero (List.mem_map_of_mem (f := ObjectNode.region) hn)
          exact .inl (markedIn_markAll_of_root hroot hne ⟨n, hn, rfl⟩)
        · exact .inr (hheap.refcount_ne_zero hholds ha)
      · right
        intro hzero
        rw [hzero] at hcount
        exact absurd hcount (Nat.not_lt_zero _)

/-! ### A cycle -/

/-- The references that the collector follows, and no others. -/
def followed (layout : Layout) : HeldReferences layout where
  held bytes a := (storedValues layout bytes a).map StoredValue.child
  covers _ _ _ h := by
    obtain ⟨-, v, hv, rfl⟩ := h
    exact List.mem_map_of_mem hv

/-- Optionals whose tag is at offset 16 and whose value is at offset 24, below the first
four gigabytes. -/
def optionalLayout : Layout :=
  { (default : Layout) with
    optionalIsSome := fun bytes a => readUInt32 bytes (a + 8) != 0
    optionalValue := fun bytes a =>
      ⟨if readUInt32 bytes (a + 16) = 7 then .typeOptional else .typeNil,
        (readUInt32 bytes (a + 24)).toNat⟩ }

/-- Two optionals are made, and each becomes the value of the other. -/
def makeCycle : List MemoryOp :=
  [.alloc 32 .optional ⟨some (.next 4095), none⟩,
   .alloc 32 .optional ⟨none, none⟩,
   .write (4096 + 8) 1, .write (4096 + 16) 7, .write (4096 + 24) 64, .write (4096 + 25) 16,
   .write (4160 + 8) 1, .write (4160 + 16) 7, .write (4160 + 25) 16]

/-- A string is made, and its count drops to zero. -/
def makeLost : List MemoryOp :=
  [.alloc 32 .string ⟨some (.next 4095), none⟩, .write (4096 + 4) 0]

/-- The heap after a run, with collections enabled. -/
def heapAfter (ops : List MemoryOp) : Memory :=
  ((Run.run (Memory.step optionalLayout) (Memory.init fun _ => 0) ops).toOption.map fun result =>
    result.1.setThreshold 1000).getD (Memory.init fun _ => 0)

/-- The storage of the objects is that of the allocator. -/
theorem owns_heapAfter (ops : List MemoryOp)
    (h : Run.Guarded (Memory.step optionalLayout) Memory.Allowed (Memory.init fun _ => 0) ops) :
    (heapAfter ops).Owns ((heapAfter ops).allObjects.map ObjectNode.region) := by
  obtain ⟨s, rs, hrun, hsound⟩ := Run.run_invariant Memory.Sound ops
    (fun s op _ h hnow => h.step hnow) (Memory.init fun _ => 0) (init_sound _) h
  rw [heapAfter, hrun]
  exact hsound.owns.congr rfl rfl

/-- No object is reached without roots. -/
theorem not_rooted (references : HeldReferences layout) (h : s.gcRoots = []) :
    ¬ references.Rooted s a := by
  rintro ⟨root, hroot, -⟩
  rw [h] at hroot
  cases hroot

/-- The two optionals of the cycle are garbage, and a collection does not free them. -/
theorem cycle_not_reclaimed :
    (followed optionalLayout).CountedHeap (heapAfter makeCycle) ∧
      (heapAfter makeCycle).cycleCollectionEnabled = true ∧
      (followed optionalLayout).Garbage (heapAfter makeCycle) {4096, 4160} ∧
      ¬ (followed optionalLayout).Reclaims (heapAfter makeCycle) {4096, 4160} := by
  have howns := owns_heapAfter makeCycle (by decide +kernel)
  have henabled : (heapAfter makeCycle).cycleCollectionEnabled = true := by decide +kernel
  have hroots : (heapAfter makeCycle).gcRoots = [] := by decide +kernel
  refine ⟨⟨howns, by decide +kernel⟩, henabled,
    ⟨by decide +kernel, fun a _ => not_rooted _ hroots, by decide +kernel⟩, ?_⟩
  rintro ⟨s', hcollect, hfreed, -⟩
  obtain ⟨t, ht, hlive⟩ := collectCycles_live optionalLayout howns henabled
  rw [ht] at hcollect
  cases hcollect
  refine hfreed 4096 (by decide) ((hlive 4096).mpr ⟨by decide +kernel, .inr ?_⟩)
  decide +kernel

/-- A string without a count is freed. -/
theorem lost_reclaimed :
    (followed optionalLayout).Reclaims (heapAfter makeLost) {4096} :=
  (collectCycles_reclaims_iff optionalLayout (followed optionalLayout) (heapAfter makeLost)
    ⟨owns_heapAfter makeLost (by decide +kernel), by decide +kernel⟩ (by decide +kernel) {4096}
    ⟨by decide +kernel, fun _ _ => not_rooted _ (by decide +kernel), by decide +kernel⟩).mpr
    (by decide +kernel)

end HeldReferences

end BreadLang
