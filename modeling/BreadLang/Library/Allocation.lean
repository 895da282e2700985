import Mathlib.Data.Finset.Erase
import Mathlib.Data.Finset.Insert
import Mathlib.Data.Finset.Lattice.Fold
import Mathlib.Order.Lattice.Nat

/-!
# Allocated blocks

A memory knows which addresses are allocated.  `Allocator.alloc` gives an address that is not,
and `freeBlock` takes one back.  `Adds m m' new` says that between two memories exactly the
addresses of a list have been added, each once.  It composes, and freeing some of the new
addresses leaves the others.
-/

namespace BreadLang

namespace Allocation

/-- The allocated addresses, and how often memory has been allocated. -/
structure Memory where
  live : Finset ℕ
  time : ℕ

/-- The choice of an address, which may depend on the past. -/
structure Allocator where
  fresh : ℕ → Finset ℕ → ℕ
  fresh_notMem : ∀ time live, fresh time live ∉ live

/-- The allocator that takes the address behind all others. -/
def Allocator.above : Allocator where
  fresh _ live := live.sup id + 1
  fresh_notMem _ _ h := absurd (Finset.le_sup (f := id) h) (Nat.not_succ_le_self _)

/-- What goes wrong with a block, or that a recursion is too deep. -/
inductive Fault where
  | notLive
  | tooDeep
  deriving DecidableEq

/-- The address of a new block, and the memory with it. -/
def Allocator.alloc (A : Allocator) (m : Memory) : ℕ × Memory :=
  (A.fresh m.time m.live, ⟨insert (A.fresh m.time m.live) m.live, m.time + 1⟩)

/-- A block is read. -/
def readBlock (a : ℕ) (m : Memory) : Except Fault Unit :=
  if a ∈ m.live then .ok () else .error .notLive

/-- A block is given back. -/
def freeBlock (a : ℕ) (m : Memory) : Except Fault Memory :=
  if a ∈ m.live then .ok { m with live := m.live.erase a } else .error .notLive

/-- Exactly these addresses have been added. -/
structure Adds (m m' : Memory) (new : List ℕ) : Prop where
  nodup : new.Nodup
  fresh : ∀ a ∈ new, a ∉ m.live
  live_iff : ∀ a, a ∈ m'.live ↔ a ∈ m.live ∨ a ∈ new

variable {A : Allocator} {m m' m'' : Memory} {new new' : List ℕ} {a : ℕ}

theorem readBlock_of_mem (h : a ∈ m.live) : readBlock a m = .ok () :=
  if_pos h

theorem Adds.refl (m : Memory) : Adds m m [] :=
  ⟨List.nodup_nil, by simp, by simp⟩

/-- What is added in two steps. -/
theorem Adds.trans (h : Adds m m' new) (h' : Adds m' m'' new') : Adds m m'' (new ++ new') := by
  refine ⟨?_, ?_, ?_⟩
  · refine List.nodup_append.mpr ⟨h.nodup, h'.nodup, fun a ha b hb hab => ?_⟩
    subst hab
    exact h'.fresh a hb ((h.live_iff a).mpr (.inr ha))
  · intro a ha
    rcases List.mem_append.mp ha with ha | ha
    · exact h.fresh a ha
    · exact fun hlive => h'.fresh a ha ((h.live_iff a).mpr (.inl hlive))
  · intro a
    rw [h'.live_iff, h.live_iff, List.mem_append, or_assoc]

theorem Adds.perm (h : Adds m m' new) (hperm : new.Perm new') : Adds m m' new' :=
  ⟨hperm.nodup_iff.mp h.nodup, fun a ha => h.fresh a (hperm.mem_iff.mpr ha),
    fun a => by rw [h.live_iff, hperm.mem_iff]⟩

/-- What is added is allocated. -/
theorem Adds.mem (h : Adds m m' new) (ha : a ∈ new) : a ∈ m'.live :=
  (h.live_iff a).mpr (.inr ha)

/-- What was allocated still is. -/
theorem Adds.mono (h : Adds m m' new) (ha : a ∈ m.live) : a ∈ m'.live :=
  (h.live_iff a).mpr (.inl ha)

theorem adds_alloc (A : Allocator) (m : Memory) : Adds m (A.alloc m).2 [(A.alloc m).1] := by
  refine ⟨List.nodup_singleton _, ?_, ?_⟩
  · intro a ha
    rw [List.mem_singleton.mp ha]
    exact A.fresh_notMem _ _
  · intro a
    simp [Allocator.alloc, or_comm]

/-- A new block can be given back. -/
theorem Adds.freeBlock (h : Adds m m' (a :: new)) :
    ∃ m'', freeBlock a m' = .ok m'' ∧ Adds m m'' new := by
  obtain ⟨ha, hnodup⟩ := List.nodup_cons.mp h.nodup
  refine ⟨{ m' with live := m'.live.erase a }, if_pos (h.mem List.mem_cons_self), hnodup,
    fun b hb => h.fresh b (List.mem_cons_of_mem a hb), fun b => ?_⟩
  have hlive := h.live_iff b
  have hfresh := h.fresh a List.mem_cons_self
  show b ∈ m'.live.erase a ↔ _
  rw [Finset.mem_erase, hlive, List.mem_cons]
  constructor
  · rintro ⟨hne, hb | rfl | hb⟩
    · exact .inl hb
    · exact absurd rfl hne
    · exact .inr hb
  · rintro (hb | hb)
    · exact ⟨by rintro rfl; exact hfresh hb, .inl hb⟩
    · exact ⟨by rintro rfl; exact ha hb, .inr (.inr hb)⟩

end Allocation

end BreadLang
