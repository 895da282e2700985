import Mathlib.Data.List.Nodup
import Mathlib.Data.List.Perm.Subperm
import Mathlib.Logic.Function.Basic

/-!
# Singly linked lists in a heap

A heap of nodes, each with a value and a `next` pointer, and lists given by a
pointer to their first node and one to their last.  An address is handed out
once: a node that has been freed stays unallocated, so that an access to it can
be told from an access to a live node.

`Chain h p xs` says that the nodes reached from `p` are those of `xs`, in this
order, and that all of them are allocated.  It is stable under every change of
the heap outside its nodes (`Chain.congr`), and `represents_append` is the one
lemma about a change inside.
-/

namespace BreadLang

/-- A node of a list. -/
structure Node (α : Type) where
  val : α
  next : Option ℕ

/-- A heap of nodes.  The addresses from `size` on have not been handed out. -/
structure NodeHeap (α : Type) where
  cells : ℕ → Option (Node α)
  size : ℕ
  unused : ∀ a, size ≤ a → cells a = none

/-- The head and the tail of a list. -/
structure LinkedList where
  head : Option ℕ
  tail : Option ℕ
  deriving DecidableEq

/-- The list without nodes. -/
def LinkedList.empty : LinkedList := ⟨none, none⟩

namespace NodeHeap

variable {α : Type} {h h' : NodeHeap α} {p : Option ℕ} {xs : List (ℕ × α)} {a : ℕ} {v : α}

/-- The heap in which nothing is allocated. -/
def empty : NodeHeap α := ⟨fun _ => none, 0, fun _ _ => rfl⟩

/-- Whether there is a node at an address. -/
def Allocated (h : NodeHeap α) (a : ℕ) : Prop :=
  h.cells a ≠ none

theorem allocated_of_cell {node : Node α} (ha : h.cells a = some node) : h.Allocated a :=
  fun hnone => by
    rw [ha] at hnone
    cases hnone

/-- A new node, which is not linked to any other. -/
def alloc (h : NodeHeap α) (v : α) : NodeHeap α where
  cells := Function.update h.cells h.size (some ⟨v, none⟩)
  size := h.size + 1
  unused a ha := by
    rw [Function.update_of_ne (by omega)]
    exact h.unused a (by omega)

/-- The heap without the node at an address. -/
def free (h : NodeHeap α) (a : ℕ) : NodeHeap α where
  cells := Function.update h.cells a none
  size := h.size
  unused b hb := by
    by_cases heq : b = a
    · rw [heq, Function.update_self]
    · rw [Function.update_of_ne heq, h.unused b hb]

/-- The heap with another `next` pointer in the node at an address. -/
def setNext (h : NodeHeap α) (a : ℕ) (next : Option ℕ) : NodeHeap α where
  cells := Function.update h.cells a ((h.cells a).map fun n => { n with next })
  size := h.size
  unused b hb := by
    by_cases heq : b = a
    · subst heq
      rw [Function.update_self, h.unused b hb]
      rfl
    · rw [Function.update_of_ne heq, h.unused b hb]

@[simp] theorem cells_alloc_self (h : NodeHeap α) (v : α) :
    (h.alloc v).cells h.size = some ⟨v, none⟩ :=
  Function.update_self ..

theorem cells_alloc_of_ne (h : NodeHeap α) (v : α) (ha : a ≠ h.size) :
    (h.alloc v).cells a = h.cells a :=
  Function.update_of_ne ha ..

theorem cells_alloc (ha : a < h.size) : (h.alloc v).cells a = h.cells a :=
  cells_alloc_of_ne h v (Nat.ne_of_lt ha)

@[simp] theorem cells_free_self (h : NodeHeap α) (a : ℕ) : (h.free a).cells a = none :=
  Function.update_self ..

theorem cells_free_of_ne (h : NodeHeap α) {b : ℕ} (hne : b ≠ a) :
    (h.free a).cells b = h.cells b :=
  Function.update_of_ne hne ..

@[simp] theorem cells_setNext_self (h : NodeHeap α) (a : ℕ) (next : Option ℕ) :
    (h.setNext a next).cells a = (h.cells a).map fun n => { n with next } :=
  Function.update_self ..

theorem cells_setNext_of_ne (h : NodeHeap α) {b : ℕ} (next : Option ℕ) (hne : b ≠ a) :
    (h.setNext a next).cells b = h.cells b :=
  Function.update_of_ne hne ..

theorem lt_size_of_allocated (ha : h.Allocated a) : a < h.size := by
  by_contra hlt
  exact ha (h.unused a (Nat.le_of_not_lt hlt))

/-- Nothing has been done to the addresses that had been handed out. -/
structure Extends (h h' : NodeHeap α) : Prop where
  cells : ∀ a, a < h.size → h'.cells a = h.cells a
  size_le : h.size ≤ h'.size

theorem Extends.refl (h : NodeHeap α) : h.Extends h :=
  ⟨fun _ _ => rfl, Nat.le_refl _⟩

theorem Extends.trans {h'' : NodeHeap α} (hx : h.Extends h') (hx' : h'.Extends h'') :
    h.Extends h'' where
  cells a ha := by rw [hx'.cells a (Nat.lt_of_lt_of_le ha hx.size_le), hx.cells a ha]
  size_le := Nat.le_trans hx.size_le hx'.size_le

theorem extends_alloc (h : NodeHeap α) (v : α) : h.Extends (h.alloc v) :=
  ⟨fun _ ha => cells_alloc ha, Nat.le_succ _⟩

/-- The addresses that have been freed stay so. -/
structure KeepsFreed (h h' : NodeHeap α) : Prop where
  freed : ∀ a, a < h.size → h.cells a = none → h'.cells a = none
  size_le : h.size ≤ h'.size

theorem KeepsFreed.refl (h : NodeHeap α) : h.KeepsFreed h :=
  ⟨fun _ _ ha => ha, Nat.le_refl _⟩

theorem KeepsFreed.trans {h'' : NodeHeap α} (hx : h.KeepsFreed h') (hx' : h'.KeepsFreed h'') :
    h.KeepsFreed h'' where
  freed a ha hnone := hx'.freed a (Nat.lt_of_lt_of_le ha hx.size_le) (hx.freed a ha hnone)
  size_le := Nat.le_trans hx.size_le hx'.size_le

theorem Extends.keepsFreed (hx : h.Extends h') : h.KeepsFreed h' :=
  ⟨fun a ha hnone => (hx.cells a ha).trans hnone, hx.size_le⟩

theorem keepsFreed_setNext (h : NodeHeap α) (a : ℕ) (next : Option ℕ) :
    h.KeepsFreed (h.setNext a next) where
  freed b _ hnone := by
    by_cases heq : b = a
    · rw [heq, cells_setNext_self, ← heq, hnone]
      rfl
    · rw [cells_setNext_of_ne _ _ heq, hnone]
  size_le := Nat.le_refl _

theorem keepsFreed_free (h : NodeHeap α) (a : ℕ) : h.KeepsFreed (h.free a) where
  freed b _ hnone := by
    by_cases heq : b = a
    · rw [heq, cells_free_self]
    · rw [cells_free_of_ne _ heq, hnone]
  size_le := Nat.le_refl _

/-! ### Chains -/

/-- **The nodes from a pointer on.** -/
def Chain (h : NodeHeap α) (p : Option ℕ) : List (ℕ × α) → Prop
  | [] => p = none
  | (a, v) :: xs => p = some a ∧ ∃ next, h.cells a = some ⟨v, next⟩ ∧ h.Chain next xs

/-- A chain does not depend on what is outside its nodes. -/
theorem Chain.congr (hc : h.Chain p xs) (heq : ∀ x ∈ xs, h'.cells x.1 = h.cells x.1) :
    h'.Chain p xs := by
  induction xs generalizing p with
  | nil => exact hc
  | cons x xs ih =>
      obtain ⟨hp, next, hcell, hrest⟩ := hc
      refine ⟨hp, next, ?_, ih hrest fun y hy => heq y (List.mem_cons_of_mem _ hy)⟩
      rw [heq _ List.mem_cons_self, hcell]

theorem Chain.allocated (hc : h.Chain p xs) : ∀ x ∈ xs, h.Allocated x.1 := by
  induction xs generalizing p with
  | nil => exact fun x hx => absurd hx List.not_mem_nil
  | cons x xs ih =>
      obtain ⟨-, next, hcell, hrest⟩ := hc
      rintro y (_ | ⟨_, hy⟩)
      · exact allocated_of_cell hcell
      · exact ih hrest y hy

theorem Chain.extends (hc : h.Chain p xs) (hx : h.Extends h') : h'.Chain p xs :=
  hc.congr fun x hx' => hx.cells _ (lt_size_of_allocated (hc.allocated x hx'))

theorem Chain.val (hc : h.Chain p xs) :
    ∀ x ∈ xs, ∃ next, h.cells x.1 = some ⟨x.2, next⟩ := by
  induction xs generalizing p with
  | nil => exact fun x hx => absurd hx List.not_mem_nil
  | cons x xs ih =>
      obtain ⟨-, next, hcell, hrest⟩ := hc
      rintro y (_ | ⟨_, hy⟩)
      · exact ⟨next, hcell⟩
      · exact ih hrest y hy

/-- What a chain holds is determined by its first pointer. -/
theorem Chain.unique {ys : List (ℕ × α)} (hx : h.Chain p xs) (hy : h.Chain p ys) : xs = ys := by
  induction xs generalizing p ys with
  | nil =>
      cases ys with
      | nil => rfl
      | cons y ys =>
          obtain ⟨hp, -⟩ := hy
          rw [show p = none from hx] at hp
          cases hp
  | cons x xs ih =>
      obtain ⟨hp, next, hcell, hrest⟩ := hx
      cases ys with
      | nil =>
          rw [show p = none from hy] at hp
          cases hp
      | cons y ys =>
          obtain ⟨hp', next', hcell', hrest'⟩ := hy
          have haddr : x.1 = y.1 := Option.some.inj (hp.symm.trans hp')
          rw [haddr] at hcell
          obtain ⟨hval, rfl⟩ := Node.mk.inj (Option.some.inj (hcell.symm.trans hcell'))
          rw [ih hrest hrest', show x = y from Prod.ext haddr hval]

/-- The chain that a last node is linked to. -/
theorem Chain.snoc {t : ℕ} {w : α} {ys : List (ℕ × α)} (hc : h.Chain p (ys ++ [(t, w)]))
    (hnodup : ((ys ++ [(t, w)]).map Prod.fst).Nodup) (ha : h.cells a = some ⟨v, none⟩)
    (hne : a ≠ t) : (h.setNext t (some a)).Chain p (ys ++ [(t, w)] ++ [(a, v)]) := by
  induction ys generalizing p with
  | nil =>
      obtain ⟨hp, next, hcell, -⟩ := hc
      refine ⟨hp, some a, by rw [cells_setNext_self, hcell]; rfl, rfl, none, ?_, rfl⟩
      rw [cells_setNext_of_ne _ _ hne, ha]
  | cons y ys ih =>
      obtain ⟨hp, next, hcell, hrest⟩ := hc
      have hnd := List.nodup_cons.mp hnodup
      have hyt : y.1 ≠ t := fun heq => hnd.1 (by simp [heq])
      refine ⟨hp, next, ?_, ih hrest hnd.2⟩
      rw [cells_setNext_of_ne _ _ hyt, hcell]

/-! ### Lists -/

/-- **The nodes of a list**: a chain from its head to its tail that meets no node
twice. -/
structure Represents (h : NodeHeap α) (l : LinkedList) (xs : List (ℕ × α)) : Prop where
  chain : h.Chain l.head xs
  tail : l.tail = xs.getLast?.map Prod.fst
  nodup : (xs.map Prod.fst).Nodup

theorem represents_empty (h : NodeHeap α) : h.Represents .empty [] :=
  ⟨rfl, rfl, List.nodup_nil⟩

theorem Represents.congr {l : LinkedList} (hr : h.Represents l xs)
    (heq : ∀ x ∈ xs, h'.cells x.1 = h.cells x.1) : h'.Represents l xs :=
  ⟨hr.chain.congr heq, hr.tail, hr.nodup⟩

theorem Represents.extends {l : LinkedList} (hr : h.Represents l xs) (hx : h.Extends h') :
    h'.Represents l xs :=
  ⟨hr.chain.extends hx, hr.tail, hr.nodup⟩

/-- A list has no more nodes than the heap. -/
theorem Represents.length_le {l : LinkedList} (hr : h.Represents l xs) :
    xs.length ≤ h.size := by
  have hsub : xs.map Prod.fst ⊆ List.range h.size := by
    intro a ha
    obtain ⟨x, hx, rfl⟩ := List.mem_map.mp ha
    exact List.mem_range.mpr (lt_size_of_allocated (hr.chain.allocated x hx))
  have hle := (hr.nodup.subperm hsub).length_le
  rwa [List.length_map, List.length_range] at hle

/-- A node that is put behind the last one; `none` when it, or the last one, is
not allocated. -/
def append (h : NodeHeap α) (l : LinkedList) (a : ℕ) : Option (NodeHeap α × LinkedList) :=
  match h.cells a, l.head, l.tail with
  | none, _, _ => none
  | some _, none, _ => some (h.setNext a none, ⟨some a, some a⟩)
  | some _, some _, none => none
  | some _, some _, some t =>
      match (h.setNext a none).cells t with
      | none => none
      | some _ => some ((h.setNext a none).setNext t (some a), ⟨l.head, some a⟩)

/-- **The list with one more node.** -/
theorem represents_append {l : LinkedList} {next : Option ℕ} (hr : h.Represents l xs)
    (ha : h.cells a = some ⟨v, next⟩) (hnew : a ∉ xs.map Prod.fst) :
    ∃ h' l', h.append l a = some (h', l') ∧ h'.Represents l' (xs ++ [(a, v)]) ∧ h'.size = h.size ∧
      ∀ b, b ≠ a → b ∉ xs.map Prod.fst → h'.cells b = h.cells b := by
  have hcell : (h.setNext a none).cells a = some ⟨v, none⟩ := by
    rw [cells_setNext_self, ha]
    rfl
  have hne : ∀ x ∈ xs, x.1 ≠ a := fun x hx heq => hnew (heq ▸ List.mem_map_of_mem hx)
  have hchain : (h.setNext a none).Chain l.head xs :=
    hr.chain.congr fun x hx => cells_setNext_of_ne _ _ (hne x hx)
  have hnodup : ((xs ++ [(a, v)]).map Prod.fst).Nodup := by
    rw [List.map_append]
    exact List.Nodup.append hr.nodup (List.nodup_singleton a)
      (fun b hb hba => hnew ((show b = a from List.mem_singleton.mp hba) ▸ hb))
  unfold append
  rw [ha]
  rcases List.eq_nil_or_concat xs with rfl | ⟨ys, ⟨t, w⟩, rfl⟩
  · rw [show l.head = none from hr.chain]
    exact ⟨_, _, rfl, ⟨⟨rfl, none, hcell, rfl⟩, rfl, hnodup⟩, rfl,
      fun b hb _ => cells_setNext_of_ne _ _ hb⟩
  · have htail : l.tail = some t := by
      rw [hr.tail]
      simp
    have ht : a ≠ t := fun heq => hnew (by simp [heq])
    obtain ⟨q, hq⟩ : ∃ q, l.head = some q := by
      cases ys with
      | nil => exact ⟨_, hr.chain.1⟩
      | cons y ys => exact ⟨_, hr.chain.1⟩
    obtain ⟨n, hn⟩ := Option.ne_none_iff_exists'.mp
      (hchain.allocated (t, w) (by simp))
    rw [htail, hq]
    simp only [hn]
    rw [← hq]
    rw [List.concat_eq_append] at *
    refine ⟨_, _, rfl, ⟨hchain.snoc hr.nodup hcell ht, by simp, hnodup⟩, rfl, ?_⟩
    intro b hb hmem
    rw [cells_setNext_of_ne _ _ fun heq => hmem (by simp [heq]), cells_setNext_of_ne _ _ hb]

/-- A change that keeps everything outside a list and one more node, when these are
allocated. -/
theorem Represents.keepsFreed {l : LinkedList} (hr : h.Represents l xs) (ha : h.Allocated a)
    (hsize : h'.size = h.size)
    (hframe : ∀ b, b ≠ a → b ∉ xs.map Prod.fst → h'.cells b = h.cells b) :
    h.KeepsFreed h' where
  freed b _ hnone := by
    rw [hframe b (fun heq => ha (heq ▸ hnone)) ?_, hnone]
    intro hmem
    obtain ⟨x, hx, rfl⟩ := List.mem_map.mp hmem
    exact hr.chain.allocated x hx hnone
  size_le := Nat.le_of_eq hsize.symm

/-! ### Walking and freeing -/

/-- The nodes from a pointer on, in a bounded number of steps; `none` when the steps
run out or a node is not allocated. -/
def walk (h : NodeHeap α) : ℕ → Option ℕ → Option (List (ℕ × α))
  | _, none => some []
  | 0, some _ => none
  | n + 1, some a =>
      match h.cells a with
      | none => none
      | some node => (h.walk n node.next).map ((a, node.val) :: ·)

theorem walk_of_chain (hc : h.Chain p xs) {n : ℕ} (hn : xs.length ≤ n) :
    h.walk n p = some xs := by
  induction xs generalizing p n with
  | nil =>
      rw [show p = none from hc]
      cases n <;> rfl
  | cons x xs ih =>
      obtain ⟨rfl, next, hcell, hrest⟩ := hc
      obtain ⟨m, rfl⟩ : ∃ m, n = m + 1 := ⟨n - 1, by simp at hn; omega⟩
      show (match h.cells x.1 with
        | none => none
        | some node => (h.walk m node.next).map ((x.1, node.val) :: ·)) = _
      rw [hcell]
      show (h.walk m next).map _ = _
      rw [ih hrest (by simpa using hn)]
      rfl

/-- The nodes of a list. -/
def nodes (h : NodeHeap α) (l : LinkedList) : Option (List (ℕ × α)) :=
  h.walk h.size l.head

theorem Represents.nodes_eq {l : LinkedList} (hr : h.Represents l xs) : h.nodes l = some xs :=
  walk_of_chain hr.chain hr.length_le

/-- The heap without the nodes at the given addresses. -/
def freeAll (h : NodeHeap α) (as : List ℕ) : NodeHeap α :=
  as.foldl free h

theorem keepsFreed_freeAll (h : NodeHeap α) (as : List ℕ) : h.KeepsFreed (h.freeAll as) := by
  induction as generalizing h with
  | nil => exact .refl h
  | cons a as ih => exact (keepsFreed_free h a).trans (ih (h.free a))

theorem cells_freeAll_of_notMem {as : List ℕ} (hmem : a ∉ as) :
    (h.freeAll as).cells a = h.cells a := by
  induction as generalizing h with
  | nil => rfl
  | cons b as ih =>
      rw [List.mem_cons, not_or] at hmem
      rw [freeAll, List.foldl_cons, ← freeAll, ih hmem.2, cells_free_of_ne _ hmem.1]

theorem cells_freeAll {as : List ℕ} (hmem : a ∈ as) : (h.freeAll as).cells a = none := by
  induction as generalizing h with
  | nil => exact absurd hmem List.not_mem_nil
  | cons b as ih =>
      rw [freeAll, List.foldl_cons, ← freeAll]
      by_cases has : a ∈ as
      · exact ih has
      · obtain rfl : a = b := (List.mem_cons.mp hmem).resolve_right has
        rw [cells_freeAll_of_notMem has, cells_free_self]

/-- What a program that follows the pointers gets to. -/
inductive Reaches (h : NodeHeap α) (p : Option ℕ) : ℕ → Prop
  | head {a : ℕ} (hp : p = some a) : Reaches h p a
  | next {a b : ℕ} {node : Node α} (ha : Reaches h p a) (hcell : h.cells a = some node)
      (hnext : node.next = some b) : Reaches h p b

end NodeHeap

end BreadLang
