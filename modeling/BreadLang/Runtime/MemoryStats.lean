import BreadLang.Runtime.MemoryFacts
import Mathlib.Order.Bounds.Basic

/-!
# The statistics of the memory manager

The counters are updated where objects are tracked and untracked, and again in
`bread_memory_realloc` and in the sweep.  `Accounts` says that they agree with the
list of objects, and every operation keeps it.

The number of objects rises only in an allocation, where a collection may follow at
once.  `visited` lists the states of a run with the one between the two.
-/

namespace BreadLang

variable {s s' : Memory} {layout : Layout} {nodes : List ObjectNode} {object p q : ℕ}

/-! ### What the counters say -/

/-- The sizes of the objects. -/
def objectSizes (nodes : List ObjectNode) : List ℕ :=
  nodes.map ObjectNode.size

/-- The counters agree with a list of the sizes of the objects. -/
structure MemoryStats.Accounts (stats : MemoryStats) (sizes : List ℕ) : Prop where
  objects : stats.currentObjects = sizes.length
  allocations : stats.totalAllocations = stats.totalDeallocations + UInt64.ofNat sizes.length
  bytes : stats.bytesAllocated = stats.bytesFreed + UInt64.ofNat sizes.sum

/-- **The counters agree with the list of objects.** -/
structure Memory.Balanced (s : Memory) : Prop where
  accounts : s.stats.Accounts (objectSizes s.allObjects)
  initialized : s.initialized = true

/-- The counters without the object of the given size. -/
theorem MemoryStats.Accounts.untracked {stats : MemoryStats} {front back : List ℕ} {size : ℕ}
    (h : stats.Accounts (front ++ size :: back)) :
    (stats.untracked size).Accounts (front ++ back) where
  objects := by simp [MemoryStats.untracked, h.objects]
  allocations := by
    have hlength : (front ++ size :: back).length = 1 + (front ++ back).length := by
      simp [Nat.add_comm, Nat.add_assoc]
    rw [MemoryStats.untracked, h.allocations, hlength, UInt64.ofNat_add, ← UInt64.add_assoc]
    rfl
  bytes := by
    have hsum : (front ++ size :: back).sum = size + (front ++ back).sum := by
      simp [Nat.add_left_comm]
    rw [MemoryStats.untracked, h.bytes, hsum, UInt64.ofNat_add, ← UInt64.add_assoc]

/-- The counters with an object of another size. -/
theorem MemoryStats.Accounts.resized {stats : MemoryStats} {front back : List ℕ}
    {oldSize newSize : ℕ} (h : stats.Accounts (front ++ oldSize :: back)) (q : ℕ)
    (hs : s.stats = stats) :
    (s.resized q oldSize newSize).stats.Accounts (front ++ newSize :: back) := by
  subst hs
  have hsum (size : ℕ) : (front ++ size :: back).sum = size + (front ++ back).sum := by
    simp [Nat.add_left_comm]
  rw [Memory.resized]
  split
  next hlt =>
    refine ⟨by simp [h.objects], by simp [h.allocations], ?_⟩
    have hgrown : oldSize + (front ++ back).sum + (newSize - oldSize) =
        newSize + (front ++ back).sum := by omega
    rw [h.bytes, UInt64.add_assoc, ← UInt64.ofNat_add, hsum, hsum, hgrown]
  next hle =>
    refine ⟨by simp [h.objects], by simp [h.allocations], ?_⟩
    have hshrunk : oldSize + (front ++ back).sum =
        oldSize - newSize + (newSize + (front ++ back).sum) := by omega
    rw [h.bytes, hsum, hsum, hshrunk, UInt64.ofNat_add, ← UInt64.add_assoc]


/-! ### What the operations do to the counters -/

theorem objectSizes_markAll :
    objectSizes (s.markAll layout) = objectSizes s.allObjects := by
  have h := congrArg (List.map ObjectNode.size) (map_unmark_markAll layout s)
  rwa [List.map_map, List.map_map] at h

/-- The number of objects can only fall, and its peak is that of the state before. -/
structure Memory.Lowers (s s' : Memory) : Prop where
  peak : s'.stats.peakObjects = s.stats.peakObjects
  current : s'.stats.currentObjects ≤ s.stats.currentObjects

theorem Memory.Lowers.refl (s : Memory) : s.Lowers s :=
  ⟨rfl, Nat.le_refl _⟩

theorem Memory.Lowers.trans {s₁ s₂ s₃ : Memory} (h : s₁.Lowers s₂) (h' : s₂.Lowers s₃) :
    s₁.Lowers s₃ :=
  ⟨h'.peak.trans h.peak, h'.current.trans h.current⟩

theorem lowers_of_books (h : s'.books = s.books) : s.Lowers s' := by
  obtain ⟨-, hstats, -⟩ := books_eq_iff.mp h
  exact ⟨by rw [hstats], by rw [hstats]⟩

theorem Memory.Balanced.of_books (hs : s.Balanced) (h : s'.books = s.books) : s'.Balanced := by
  obtain ⟨hobjects, hstats, hinitialized⟩ := books_eq_iff.mp h
  exact ⟨by rw [hobjects, hstats]; exact hs.accounts, hinitialized.trans hs.initialized⟩

theorem untrack_balanced (hs : s.Balanced) : (s.untrack p).Balanced ∧ s.Lowers (s.untrack p) := by
  rw [Memory.untrack]
  split
  next node hnode =>
    obtain ⟨front, back, hnodes, herase, -⟩ := split_of_findNode hnode
    have haccounts := hs.accounts
    rw [hnodes] at haccounts
    simp only [objectSizes, List.map_append, List.map_cons] at haccounts
    refine ⟨⟨?_, hs.initialized⟩, ⟨rfl, Nat.sub_le _ _⟩⟩
    rw [herase]
    simp only [objectSizes, List.map_append]
    exact haccounts.untracked
  next => exact ⟨hs, .refl s⟩

theorem free_balanced (hs : s.Balanced) (h : s.free p = .ok s') :
    s'.Balanced ∧ s.Lowers s' := by
  rw [Memory.free] at h
  split at h
  next => cases h; exact ⟨hs, .refl s⟩
  next =>
    have hbooks := returnBlock_books h
    obtain ⟨hbalanced, hlowers⟩ := untrack_balanced (p := p) hs
    exact ⟨hbalanced.of_books hbooks, hlowers.trans (lowers_of_books hbooks)⟩

/-- The sweep, with the nodes `front` that it has kept already. -/
theorem sweepFrom_accounts {kept : List ObjectNode} (front : List ℕ)
    (hs : s.stats.Accounts (front ++ objectSizes nodes))
    (h : s.sweepFrom nodes = .ok (s', kept)) :
    s'.stats.Accounts (front ++ objectSizes kept) ∧ s.Lowers s' ∧
      s'.initialized = s.initialized := by
  induction nodes generalizing s front kept with
  | nil =>
      cases h
      exact ⟨hs, .refl _, rfl⟩
  | cons node nodes ih =>
      rw [Memory.sweepFrom] at h
      split at h
      next =>
        obtain ⟨u, hu, h⟩ := bind_eq_ok.mp h
        obtain ⟨-, hstats, hinitialized⟩ := books_eq_iff.mp (returnBlock_books hu)
        have hlowers : s.Lowers { u with stats := u.stats.untracked node.size } := by
          refine ⟨?_, ?_⟩
          · simp only [MemoryStats.untracked, hstats]
          · simp only [MemoryStats.untracked, hstats]
            exact Nat.sub_le _ _
        obtain ⟨haccounts, hlowers', hinitialized'⟩ :=
          ih front (by simp only [hstats]; exact hs.untracked) h
        exact ⟨haccounts, hlowers.trans hlowers', hinitialized'.trans hinitialized⟩
      next =>
        obtain ⟨⟨u, rest⟩, hu, h⟩ := bind_eq_ok.mp h
        cases h
        rw [objectSizes, List.map_cons, List.append_cons] at hs ⊢
        exact ih _ hs hu

theorem sweepUnreachable_balanced (hs : s.Balanced) (h : s.sweepUnreachable = .ok s') :
    s'.Balanced ∧ s.Lowers s' := by
  obtain ⟨⟨u, kept⟩, hu, h⟩ := bind_eq_ok.mp h
  cases h
  obtain ⟨haccounts, hlowers, hinitialized⟩ := sweepFrom_accounts [] hs.accounts hu
  exact ⟨⟨haccounts, hinitialized.trans hs.initialized⟩, ⟨hlowers.peak, hlowers.current⟩⟩

theorem collectCycles_balanced (hs : s.Balanced) (h : s.collectCycles layout = .ok s') :
    s'.Balanced ∧ s.Lowers s' := by
  rw [Memory.collectCycles] at h
  split at h
  next =>
    obtain ⟨u, hu, h⟩ := bind_eq_ok.mp h
    cases h
    have hmarked : Memory.Balanced { s with allObjects := s.markAll layout } :=
      ⟨by simp only [objectSizes_markAll]; exact hs.accounts, hs.initialized⟩
    obtain ⟨hbalanced, hlowers⟩ := sweepUnreachable_balanced hmarked hu
    exact ⟨⟨hbalanced.accounts, hbalanced.initialized⟩, ⟨hlowers.peak, hlowers.current⟩⟩
  next => cases h; exact ⟨hs, .refl s⟩

/-- A new object, before the collection that it may trigger. -/
theorem allocObject_balanced {size : ℕ} {kind : ObjKind} {supply : Supply} (hs : s.Balanced)
    (h : s.allocObject size kind supply = .ok (p, s')) :
    s'.Balanced ∧ s'.stats.peakObjects = max s'.stats.currentObjects s.stats.peakObjects := by
  obtain ⟨⟨q, u⟩, hu, h⟩ := bind_eq_ok.mp h
  cases h
  obtain ⟨hbooks, hp⟩ := obtain_books hu
  obtain ⟨hobjects, hstats, hinitialized⟩ := books_eq_iff.mp hbooks
  have haccounts := hs.accounts
  rw [Memory.track, if_neg hp]
  refine ⟨⟨⟨?_, ?_, ?_⟩, hinitialized.trans hs.initialized⟩, ?_⟩
  · simp [MemoryStats.tracked, objectSizes, hobjects, hstats, haccounts.objects]
  · simp only [MemoryStats.tracked, objectSizes, List.map_cons, List.length_cons, hobjects, hstats,
      UInt64.ofNat_add]
    rw [haccounts.allocations, UInt64.add_assoc]
    rfl
  · simp only [MemoryStats.tracked, objectSizes, List.map_cons, List.sum_cons, hobjects, hstats]
    rw [haccounts.bytes, UInt64.add_assoc, ← UInt64.ofNat_add, Nat.add_comm size]
    rfl
  · simp [MemoryStats.tracked, hstats]

theorem alloc_balanced {size : ℕ} {kind : ObjKind} {supply : Supply} (hs : s.Balanced)
    (h : s.alloc layout size kind supply = .ok (p, s')) :
    ∃ u, s.allocObject size kind supply = .ok (p, u) ∧ s'.Balanced ∧ u.Lowers s' := by
  obtain ⟨⟨q, u⟩, hu, h⟩ := bind_eq_ok.mp h
  obtain ⟨hbalanced, -⟩ := allocObject_balanced hs hu
  dsimp only at h
  split at h
  next =>
    obtain ⟨t, ht, h⟩ := bind_eq_ok.mp h
    cases h
    obtain ⟨hbalanced', hlowers⟩ := collectCycles_balanced hbalanced ht
    exact ⟨u, hu, hbalanced', hlowers⟩
  next =>
    cases h
    exact ⟨s', hu, hbalanced, .refl s'⟩

theorem realloc_balanced {size : ℕ} {supply : Supply} (hs : s.Balanced) (hp : p ≠ 0)
    (hlive : s.Live p) (h : s.realloc layout p size supply = .ok (q, s')) :
    s'.Balanced ∧ s.Lowers s' := by
  obtain ⟨node, hnode⟩ := exists_findNode hp hlive
  obtain ⟨front, back, hnodes, -, hmodify⟩ := split_of_findNode hnode
  rw [realloc_of_found hnode] at h
  obtain ⟨⟨q', u⟩, hu, heq⟩ := map_eq_ok.mp h
  cases heq
  obtain ⟨hobjects, hstats, hinitialized⟩ := books_eq_iff.mp (moveBlock_books hu)
  have haccounts := hs.accounts
  rw [hnodes] at haccounts
  simp only [objectSizes, List.map_append, List.map_cons] at haccounts
  refine ⟨⟨?_, ?_⟩, ⟨?_, ?_⟩⟩
  · have hmoved : objectSizes (u.moved p q' node.size size).allObjects =
        objectSizes front ++ size :: objectSizes back := by
      rw [Memory.moved, hobjects]
      simp only [Memory.unpooled, hmodify, objectSizes, List.map_append, List.map_cons]
    rw [hmoved]
    exact haccounts.resized q' hstats
  · simp only [Memory.moved, resized_initialized]
    exact hinitialized.trans hs.initialized
  · simp only [Memory.moved, resized_peakObjects, hstats]
    rfl
  · simp only [Memory.moved, resized_currentObjects, hstats]
    exact Nat.le_refl _

theorem retain_books (h : s.retain p = .ok s') : s'.books = s.books := by
  rw [Memory.retain] at h
  split at h
  next => cases h; rfl
  next =>
    split at h
    next => cases h
    next => cases h; rfl

theorem release_balanced (hs : s.Balanced) (h : s.release p = .ok s') :
    s'.Balanced ∧ s.Lowers s' := by
  rw [Memory.release] at h
  split at h
  next => cases h; exact ⟨hs, .refl s⟩
  next =>
    split at h
    next => cases h
    next =>
      dsimp only at h
      split at h
      next =>
        have hcounted : Memory.Balanced { s with
            bytes := writeUInt32 s.bytes (p + 4) (refcount s.bytes p - 1) } :=
          ⟨hs.accounts, hs.initialized⟩
        obtain ⟨hbalanced, hlowers⟩ := free_balanced hcounted h
        exact ⟨hbalanced, ⟨hlowers.peak, hlowers.current⟩⟩
      next => cases h; exact ⟨⟨hs.accounts, hs.initialized⟩, ⟨rfl, Nat.le_refl _⟩⟩

/-! ### Runs -/

/-- The object that an operation is called with, if any, is tracked. -/
def Memory.OnTracked (s : Memory) : MemoryOp → Prop
  | .realloc p _ _ | .free p | .retain p | .release p => p = 0 ∨ s.Live p
  | _ => True

instance (s : Memory) : ∀ op, Decidable (s.OnTracked op)
  | .realloc p _ _ | .free p | .retain p | .release p =>
      inferInstanceAs (Decidable (p = 0 ∨ s.Live p))
  | .alloc _ _ _ | .collectCycles | .sweepUnreachable | .addRoot _ _ | .removeRoot _
  | .setThreshold _ | .enableAutoGc _ | .setBytesThreshold _ | .write _ _ => isTrue trivial

/-- The state of an allocation before the collection that it may trigger. -/
def Memory.beforeCollection (s : Memory) : MemoryOp → Option Memory
  | .alloc size kind supply => (s.allocObject size kind supply).toOption.map Prod.snd
  | .realloc p size supply =>
      if p = 0 then (s.allocObject size .string supply).toOption.map Prod.snd else none
  | _ => none

/-- The states that a run goes through, in order. -/
def visited (layout : Layout) : Memory → List MemoryOp → List Memory
  | s, [] => [s]
  | s, op :: ops =>
      s :: ((s.beforeCollection op).toList ++
        ((s.step layout op).toOption.map fun r => visited layout r.1 ops).getD [])

theorem mem_allocated {size : ℕ} {kind : ObjKind} {supply : Supply} {u : Memory} :
    (s.allocObject size kind supply).toOption.map Prod.snd = some u ↔
      ∃ p, s.allocObject size kind supply = .ok (p, u) := by
  cases s.allocObject size kind supply with
  | error e => simp [Except.toOption]
  | ok result =>
      obtain ⟨p, t⟩ := result
      simp [Except.toOption]

theorem beforeCollection_balanced {op : MemoryOp} {u : Memory} (hs : s.Balanced)
    (h : s.beforeCollection op = some u) :
    u.Balanced ∧ u.stats.peakObjects = max u.stats.currentObjects s.stats.peakObjects := by
  cases op with
  | alloc size kind supply =>
      obtain ⟨p, hp⟩ := mem_allocated.mp h
      exact allocObject_balanced hs hp
  | realloc p size supply =>
      rw [Memory.beforeCollection] at h
      split at h
      next =>
        obtain ⟨p, hp⟩ := mem_allocated.mp h
        exact allocObject_balanced hs hp
      next => cases h
  | _ => cases h

/-- **What one operation does to the counters.**  The number of objects is at most
that of the state before it, or of the state before the collection. -/
theorem step_balanced {op : MemoryOp} {r : ℕ} (hs : s.Balanced) (htracked : s.OnTracked op)
    (h : s.step layout op = .ok (s', r)) :
    s'.Balanced ∧ ((s.beforeCollection op).getD s).Lowers s' := by
  cases op with
  | alloc size kind supply =>
      obtain ⟨⟨p, t⟩, ht, h⟩ := bind_eq_ok.mp h
      cases h
      obtain ⟨u, hu, hbalanced, hlowers⟩ := alloc_balanced hs ht
      rw [Memory.beforeCollection, mem_allocated.mpr ⟨_, hu⟩]
      exact ⟨hbalanced, hlowers⟩
  | realloc p size supply =>
      obtain ⟨⟨q, t⟩, ht, h⟩ := bind_eq_ok.mp h
      cases h
      rw [Memory.beforeCollection]
      by_cases hp : p = 0
      · rw [Memory.realloc, if_pos hp] at ht
        obtain ⟨u, hu, hbalanced, hlowers⟩ := alloc_balanced hs ht
        rw [if_pos hp, mem_allocated.mpr ⟨_, hu⟩]
        exact ⟨hbalanced, hlowers⟩
      · rw [if_neg hp]
        exact realloc_balanced hs hp (htracked.resolve_left hp) ht
  | free p =>
      obtain ⟨t, ht, h⟩ := bind_eq_ok.mp h
      cases h
      exact free_balanced hs ht
  | retain p =>
      obtain ⟨t, ht, h⟩ := bind_eq_ok.mp h
      cases h
      have hbooks := retain_books ht
      exact ⟨hs.of_books hbooks, lowers_of_books hbooks⟩
  | release p =>
      obtain ⟨t, ht, h⟩ := bind_eq_ok.mp h
      cases h
      exact release_balanced hs ht
  | collectCycles =>
      obtain ⟨t, ht, h⟩ := bind_eq_ok.mp h
      cases h
      exact collectCycles_balanced hs ht
  | sweepUnreachable =>
      obtain ⟨t, ht, h⟩ := bind_eq_ok.mp h
      cases h
      exact sweepUnreachable_balanced hs ht
  | addRoot root grows =>
      have hbooks : (s.addRoot root grows).books = s.books := by
        rw [Memory.addRoot]
        repeat' split
        all_goals rfl
      cases h
      exact ⟨hs.of_books hbooks, lowers_of_books hbooks⟩
  | setThreshold threshold =>
      have hbooks : (s.setThreshold threshold).books = s.books := by
        rw [Memory.setThreshold]
        split <;> rfl
      cases h
      exact ⟨hs.of_books hbooks, lowers_of_books hbooks⟩
  | removeRoot root | enableAutoGc enable | setBytesThreshold threshold | write address byte =>
      cases h
      exact ⟨⟨hs.accounts, hs.initialized⟩, ⟨rfl, Nat.le_refl _⟩⟩

/-- In a list of states, the peak is the greatest number of objects so far, where there
have been `most` before. -/
def Peaks : ℕ → List Memory → Prop
  | _, [] => True
  | most, t :: later =>
      t.Balanced ∧ t.stats.peakObjects = max most t.stats.currentObjects ∧
        Peaks t.stats.peakObjects later

/-- The induction is on the operations. -/
theorem visited_peaks {ops : List MemoryOp} (most : ℕ) (hs : s.Balanced)
    (hpeak : s.stats.peakObjects = max most s.stats.currentObjects)
    (htracked : Run.Guarded (Memory.step layout) Memory.OnTracked s ops) :
    Peaks most (visited layout s ops) := by
  induction ops generalizing s most with
  | nil => exact ⟨hs, hpeak, trivial⟩
  | cons op ops ih =>
      obtain ⟨hnow, hlater⟩ := htracked
      refine ⟨hs, hpeak, ?_⟩
      -- the states after the operation, which follow one where the peak is no less
      have hrest (u : Memory) (hu : (s.beforeCollection op).getD s = u)
          (hpeak : u.stats.currentObjects ≤ u.stats.peakObjects) :
          Peaks u.stats.peakObjects
            (((s.step layout op).toOption.map fun r => visited layout r.1 ops).getD []) := by
        cases hstep : s.step layout op with
        | error e => trivial
        | ok result =>
            obtain ⟨s', r⟩ := result
            rw [hstep] at hlater
            obtain ⟨hbalanced, hlowers⟩ := step_balanced hs hnow hstep
            rw [hu] at hlowers
            refine ih _ hbalanced ?_ hlater
            rw [hlowers.peak, Nat.max_eq_left (hlowers.current.trans hpeak)]
      cases hbefore : s.beforeCollection op with
      | none => exact hrest s (by rw [hbefore]; rfl) (by omega)
      | some u =>
          obtain ⟨hbalanced, hupeak⟩ := beforeCollection_balanced hs hbefore
          exact ⟨hbalanced, by omega, hrest u (by rw [hbefore]; rfl) (by omega)⟩

/-- The induction is on the states before. -/
theorem Peaks.at {most : ℕ} {past rest : List Memory} {t : Memory}
    (h : Peaks most (past ++ t :: rest)) :
    t.Balanced ∧ most ≤ t.stats.peakObjects ∧
      (∀ u ∈ past ++ [t], u.stats.currentObjects ≤ t.stats.peakObjects) ∧
      (t.stats.peakObjects = most ∨
        ∃ u ∈ past ++ [t], u.stats.currentObjects = t.stats.peakObjects) := by
  induction past generalizing most with
  | nil =>
      obtain ⟨hbalanced, hpeak, -⟩ := h
      refine ⟨hbalanced, by omega, by simp [hpeak], ?_⟩
      rcases Nat.le_total t.stats.currentObjects most with hle | hle
      · exact .inl (by omega)
      · exact .inr ⟨t, by simp, by omega⟩
  | cons u past ih =>
      obtain ⟨-, hpeak, hlater⟩ := h
      obtain ⟨hbalanced, hle, hmost, hattained⟩ := ih hlater
      refine ⟨hbalanced, by omega, ?_, ?_⟩
      · rw [List.cons_append, List.forall_mem_cons]
        exact ⟨by omega, hmost⟩
      · rcases hattained with heq | ⟨v, hv, heq⟩
        · rcases Nat.le_total u.stats.currentObjects most with hle | hle
          · exact .inl (by omega)
          · exact .inr ⟨u, by simp, by omega⟩
        · exact .inr ⟨v, List.mem_cons_of_mem u hv, heq⟩

theorem init_balanced (bytes : Bytes) : (Memory.init bytes).Balanced :=
  ⟨⟨rfl, rfl, rfl⟩, rfl⟩

/-- **In every state of a run the counters agree with the list of objects**, the peak is
the greatest number of objects so far, and a leak is reported exactly when an object is
alive. -/
theorem visited_balanced (layout : Layout) (bytes : Bytes) (ops : List MemoryOp)
    (htracked : Run.Guarded (Memory.step layout) Memory.OnTracked (Memory.init bytes) ops)
    (past rest : List Memory) (t : Memory)
    (h : visited layout (Memory.init bytes) ops = past ++ t :: rest) :
    t.stats.totalAllocations - t.stats.totalDeallocations = UInt64.ofNat t.stats.currentObjects ∧
      t.stats.currentObjects = t.allObjects.length ∧
      t.stats.bytesAllocated - t.stats.bytesFreed =
        UInt64.ofNat (t.allObjects.map ObjectNode.size).sum ∧
      IsGreatest {n | ∃ u ∈ past ++ [t], n = u.stats.currentObjects} t.stats.peakObjects ∧
      (t.checkLeaks = true ↔ t.allObjects ≠ []) := by
  have hpeaks := visited_peaks 0 (init_balanced bytes) rfl htracked
  rw [h] at hpeaks
  obtain ⟨⟨haccounts, hinitialized⟩, -, hmost, hattained⟩ := hpeaks.at
  have hcurrent : t.stats.currentObjects = t.allObjects.length := by
    rw [haccounts.objects, objectSizes, List.length_map]
  refine ⟨?_, hcurrent, ?_, ⟨?_, ?_⟩, ?_⟩
  · rw [haccounts.allocations, haccounts.objects, UInt64.add_comm, UInt64.add_sub_cancel]
  · rw [haccounts.bytes, UInt64.add_comm, UInt64.add_sub_cancel, objectSizes]
  · rcases hattained with hzero | ⟨u, hu, heq⟩
    · have hle := hmost t (by simp)
      exact ⟨t, by simp, by omega⟩
    · exact ⟨u, hu, heq.symm⟩
  · rintro n ⟨u, hu, rfl⟩
    exact hmost u hu
  · rw [Memory.checkLeaks, hinitialized, hcurrent]
    simp

/-- An object of the pool and one of the C heap, and the first one is released. -/
def twoAllocations : List MemoryOp :=
  [.alloc 16 .string ⟨some (.next 4095), none⟩,
   .alloc 100 .class ⟨none, some ⟨.next 65535, fun _ => 0⟩⟩,
   .release 4096]

/-- The second object is reported as a leak, and there have been two. -/
theorem twoAllocations_balanced :
    ∃ past t, visited default (Memory.init fun _ => 0) twoAllocations = past ++ [t] ∧
      t.allObjects ≠ [] ∧ IsGreatest {n | ∃ u ∈ past ++ [t], n = u.stats.currentObjects} 2 := by
  obtain ⟨past, t, hsplit⟩ : ∃ past t,
      visited default (Memory.init fun _ => 0) twoAllocations = past ++ [t] := by
    rcases List.eq_nil_or_concat (visited default (Memory.init fun _ => 0) twoAllocations)
      with hnil | hsplit
    · cases hnil
    · simpa only [List.concat_eq_append] using hsplit
  have hlast : (visited default (Memory.init fun _ => 0) twoAllocations).getLast?.map
      (fun t => (t.checkLeaks, t.stats.peakObjects)) = some (true, 2) := by
    decide +kernel
  rw [hsplit, List.getLast?_concat, Option.map_some, Option.some_inj, Prod.mk.injEq] at hlast
  obtain ⟨-, -, -, hpeak, hleak⟩ := visited_balanced default (fun _ => 0) twoAllocations
    (by decide +kernel) past [] t hsplit
  rw [hlast.2] at hpeak
  exact ⟨past, t, hsplit, hleak.mp hlast.1, hpeak⟩

end BreadLang
