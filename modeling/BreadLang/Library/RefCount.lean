import Mathlib.Algebra.BigOperators.Group.Finset.Basic
import Mathlib.Algebra.Order.BigOperators.Group.Finset
import BreadLang.Library.Acyclic

/-!
# Reference counting

A heap of objects with counts.  The body of an object holds references to other
objects, its `children`.  Releasing a reference lowers a count; the last reference
takes the object apart, which releases its children one after another and then
returns the storage.  `drain` does this with an explicit list of what is left to do.

`Ledger` is the double-entry bookkeeping: every count is the number of references that
are owed from outside the heap and of those that objects hold.  A release keeps the
ledger of what remains owed and never gets to returned storage.  Once nothing is owed,
a heap whose references make no cycle is empty.
-/

namespace BreadLang
namespace RefCount

open Relation

variable {β : Type}

/-- A heap.  The objects are numbered in the order of their creation.  An object that
has been taken apart has no body, and `returned` counts how often its storage has been
returned. -/
structure Heap (β : Type) where
  size : ℕ
  count : ℕ → ℕ
  returned : ℕ → ℕ
  body : ℕ → Option β

namespace Heap

/-- The heap without objects. -/
def empty : Heap β where
  size := 0
  count _ := 0
  returned _ := 0
  body _ := none

/-- Create an object with one reference. -/
def alloc (h : Heap β) (b : β) : Heap β :=
  { h with
    size := h.size + 1
    count := Function.update h.count h.size 1
    body := Function.update h.body h.size (some b) }

/-- Replace the body of an object. -/
def setBody (h : Heap β) (r : ℕ) (b : β) : Heap β :=
  { h with body := Function.update h.body r (some b) }

/-- One more reference. -/
def retain (h : Heap β) (r : ℕ) : Heap β :=
  { h with count := Function.update h.count r (h.count r + 1) }

/-- One reference less. -/
def lower (h : Heap β) (r : ℕ) : Heap β :=
  { h with count := Function.update h.count r (h.count r - 1) }

/-- Take an object apart. -/
def takeApart (h : Heap β) (r : ℕ) : Heap β :=
  { h.lower r with body := Function.update h.body r none }

/-- Return the storage of an object. -/
def free (h : Heap β) (r : ℕ) : Heap β :=
  { h with returned := Function.update h.returned r (h.returned r + 1) }

/-- Return the storage of some objects, whatever counts they have. -/
def withdraw (h : Heap β) (p : ℕ → Bool) : Heap β :=
  { h with returned := fun r => h.returned r + if p r then 1 else 0 }

/-- The storage of an object has not been returned. -/
def Usable (h : Heap β) (r : ℕ) : Prop :=
  r < h.size ∧ h.returned r = 0

instance (h : Heap β) (r : ℕ) : Decidable (h.Usable r) :=
  inferInstanceAs (Decidable (r < h.size ∧ h.returned r = 0))

/-- The references that an object holds. -/
def fields (children : β → List ℕ) (h : Heap β) (r : ℕ) : List ℕ :=
  ((h.body r).map children).getD []

/-- The number of references that objects hold to one. -/
def incoming (children : β → List ℕ) (h : Heap β) (r : ℕ) : ℕ :=
  ∑ s ∈ Finset.range h.size, (h.fields children s).count r

/-- One for an object without references, and zero otherwise. -/
def dead (h : Heap β) (r : ℕ) : ℕ :=
  if r < h.size ∧ h.count r = 0 then 1 else 0

/-- The sum of all counts. -/
def total (h : Heap β) : ℕ :=
  ∑ r ∈ Finset.range h.size, h.count r

/-- Lowering a count that is not zero lowers the sum. -/
theorem total_lower {h : Heap β} {r : ℕ} (hr : r < h.size) (hcount : h.count r ≠ 0) :
    (h.lower r).total < h.total := by
  refine Finset.sum_lt_sum (fun s _ => ?_) ⟨r, Finset.mem_range.mpr hr, ?_⟩
  · by_cases hs : s = r
    · subst hs
      simp [lower]
    · simp [lower, hs]
  · show Function.update h.count r (h.count r - 1) r < h.count r
    rw [Function.update_self]
    omega

end Heap

/-! ### Releasing references -/

/-- What is left to do: release a reference, or return the storage of an object that
has been taken apart. -/
inductive Task where
  | release (r : ℕ)
  | free (r : ℕ)

/-- The references that are to be released. -/
def releases (tasks : List Task) : List ℕ :=
  tasks.filterMap fun
    | .release r => some r
    | .free _ => none

/-- The objects whose storage is to be returned. -/
def frees (tasks : List Task) : List ℕ :=
  tasks.filterMap fun
    | .release _ => none
    | .free r => some r

/-- Do what is left to do.  A release of an object that is being taken apart does
nothing.  There is no result when a release gets to returned storage. -/
def drain (children : β → List ℕ) (h : Heap β) : List Task → Option (Heap β)
  | [] => some h
  | .free r :: tasks => drain children (h.free r) tasks
  | .release r :: tasks =>
      if hr : h.Usable r then
        if hcount : h.count r = 0 then drain children h tasks
        else if h.count r = 1 then
          drain children (h.takeApart r)
            ((h.fields children r).map .release ++ .free r :: tasks)
        else drain children (h.lower r) tasks
      else none
termination_by tasks => (h.total, tasks.length)
decreasing_by
  · exact Prod.Lex.right _ (Nat.lt_succ_self _)
  · exact Prod.Lex.right _ (Nat.lt_succ_self _)
  · exact Prod.Lex.left _ _ (Heap.total_lower hr.1 hcount)
  · exact Prod.Lex.left _ _ (Heap.total_lower hr.1 hcount)

/-! ### Counting references -/

section Counting

variable {children : β → List ℕ} {h : Heap β} {r s : ℕ} {b : β} {tasks : List Task}

@[simp] theorem releases_nil : releases [] = [] := rfl

@[simp] theorem releases_release : releases (.release r :: tasks) = r :: releases tasks := rfl

@[simp] theorem releases_free : releases (.free r :: tasks) = releases tasks := rfl

@[simp] theorem releases_append (tasks' : List Task) :
    releases (tasks ++ tasks') = releases tasks ++ releases tasks' :=
  List.filterMap_append

@[simp] theorem releases_map (rs : List ℕ) : releases (rs.map .release) = rs := by
  induction rs with
  | nil => rfl
  | cons r rs ih => rw [List.map_cons, releases_release, ih]

@[simp] theorem frees_nil : frees [] = [] := rfl

@[simp] theorem frees_release : frees (.release r :: tasks) = frees tasks := rfl

@[simp] theorem frees_free : frees (.free r :: tasks) = r :: frees tasks := rfl

@[simp] theorem frees_append (tasks' : List Task) :
    frees (tasks ++ tasks') = frees tasks ++ frees tasks' :=
  List.filterMap_append

@[simp] theorem frees_map (rs : List ℕ) : frees (rs.map .release) = [] := by
  induction rs with
  | nil => rfl
  | cons r rs ih => rw [List.map_cons, frees_release, ih]

theorem fields_of_body (hb : h.body r = some b) : h.fields children r = children b := by
  rw [Heap.fields, hb]
  rfl

theorem fields_of_none (hb : h.body r = none) : h.fields children r = [] := by
  rw [Heap.fields, hb]
  rfl

/-- The references that objects hold depend on the bodies. -/
theorem incoming_congr {h' : Heap β} (hsize : h'.size = h.size) (hbody : h'.body = h.body) :
    h'.incoming children = h.incoming children := by
  funext x
  simp only [Heap.incoming, Heap.fields, hsize, hbody]

/-- Changing one body exchanges the references that it holds. -/
theorem incoming_update (children : β → List ℕ) (h h' : Heap β) (hsize : h'.size = h.size) (hr : r < h.size)
    (hbody : ∀ s, s ≠ r → h'.body s = h.body s) (x : ℕ) :
    h'.incoming children x + (h.fields children r).count x =
      h.incoming children x + (h'.fields children r).count x := by
  have hmem : r ∈ Finset.range h.size := Finset.mem_range.mpr hr
  have hrest : ∑ s ∈ (Finset.range h.size).erase r, (h'.fields children s).count x =
      ∑ s ∈ (Finset.range h.size).erase r, (h.fields children s).count x := by
    refine Finset.sum_congr rfl fun s hs => ?_
    rw [Heap.fields, Heap.fields, hbody s (Finset.ne_of_mem_erase hs)]
  have hnew := Finset.sum_erase_add _ (fun s => (h'.fields children s).count x) hmem
  have hold := Finset.sum_erase_add _ (fun s => (h.fields children s).count x) hmem
  simp only [Heap.incoming, hsize]
  omega

/-- A new object brings the references that it holds. -/
theorem incoming_alloc (h : Heap β) (b : β) (x : ℕ) :
    (h.alloc b).incoming children x = h.incoming children x + (children b).count x := by
  have hnew : (h.alloc b).fields children h.size = children b := by
    refine fields_of_body ?_
    simp [Heap.alloc]
  have hold : ∀ s ∈ Finset.range h.size,
      ((h.alloc b).fields children s).count x = (h.fields children s).count x := by
    intro s hs
    have hne : s ≠ h.size := (Finset.mem_range.mp hs).ne
    simp [Heap.fields, Heap.alloc, hne]
  show ∑ s ∈ Finset.range (h.size + 1), _ = _
  rw [Finset.sum_range_succ, hnew, Finset.sum_congr rfl hold, Heap.incoming]

/-- A reference that an object holds is counted. -/
theorem exists_of_incoming_pos (h₀ : 0 < h.incoming children r) :
    ∃ s b, h.body s = some b ∧ r ∈ children b := by
  obtain ⟨s, -, hs⟩ := Finset.exists_ne_zero_of_sum_ne_zero (Nat.ne_of_gt h₀)
  cases hb : h.body s with
  | none =>
      rw [fields_of_none hb] at hs
      exact absurd List.count_nil hs
  | some b =>
      rw [fields_of_body hb] at hs
      exact ⟨s, b, hb, List.count_pos_iff.mp (Nat.pos_of_ne_zero hs)⟩

end Counting

/-! ### The ledger -/

/-- The bookkeeping of a heap.  `owed` counts the references from outside the heap, and
`dying` lists the objects that have been taken apart and are still to be returned. -/
structure Ledger (children : β → List ℕ) (h : Heap β) (owed : ℕ → ℕ) (dying : List ℕ) :
    Prop where
  counted : ∀ r, h.count r = owed r + h.incoming children r
  body_iff : ∀ r, h.body r = none ↔ h.count r = 0
  returned : ∀ r, h.returned r + dying.count r = h.dead r
  fresh : ∀ r, h.size ≤ r → h.count r = 0

/-- What a release does to the rest of the heap: it makes no object, and it takes
objects apart or leaves them as they are. -/
structure Shrinks (h h' : Heap β) : Prop where
  size : h'.size = h.size
  body : ∀ r, h'.body r = h.body r ∨ h'.body r = none

namespace Shrinks

variable {h h' h'' : Heap β}

theorem refl (h : Heap β) : Shrinks h h :=
  ⟨rfl, fun _ => .inl rfl⟩

theorem trans (h₁ : Shrinks h h') (h₂ : Shrinks h' h'') : Shrinks h h'' := by
  refine ⟨h₂.size.trans h₁.size, fun r => ?_⟩
  rcases h₂.body r with h | h
  · rw [h]
    exact h₁.body r
  · exact .inr h

end Shrinks

section Ledger

variable {children : β → List ℕ} {h : Heap β} {owed owed' : ℕ → ℕ} {dying : List ℕ} {r : ℕ}
  {b : β}

theorem Ledger.congr (hl : Ledger children h owed dying) (howed : ∀ r, owed' r = owed r) :
    Ledger children h owed' dying := by
  refine ⟨fun r => ?_, hl.body_iff, hl.returned, hl.fresh⟩
  rw [howed]
  exact hl.counted r

/-- The empty heap owes nothing. -/
theorem ledger_empty : Ledger children (Heap.empty : Heap β) (fun _ => 0) [] :=
  ⟨fun _ => rfl, fun _ => ⟨fun _ => rfl, fun _ => rfl⟩,
    fun _ => by simp [Heap.empty, Heap.dead], fun _ _ => rfl⟩

/-- An object with a count can be used. -/
theorem Ledger.usable (hl : Ledger children h owed dying) (hr : h.count r ≠ 0) : h.Usable r := by
  have hreturned := hl.returned r
  rw [Heap.dead, if_neg fun h => hr h.2] at hreturned
  refine ⟨?_, by omega⟩
  by_contra hge
  exact hr (hl.fresh r (Nat.le_of_not_lt hge))

theorem Ledger.count_ne_zero (hl : Ledger children h owed dying) (hr : owed r ≠ 0) :
    h.count r ≠ 0 := by
  have hcounted := hl.counted r
  omega

theorem Ledger.count_of_body (hl : Ledger children h owed dying) (hb : h.body r = some b) :
    h.count r ≠ 0 := by
  intro hzero
  rw [(hl.body_iff r).mpr hzero] at hb
  cases hb

theorem Ledger.lt_size (hl : Ledger children h owed dying) (hb : h.body r = some b) :
    r < h.size :=
  (hl.usable (hl.count_of_body hb)).1

/-- Nothing dies between operations, so what can be used has a count. -/
theorem Ledger.count_of_usable (hl : Ledger children h owed []) (hr : h.Usable r) :
    h.count r ≠ 0 := by
  intro hzero
  have hreturned := hl.returned r
  rw [Heap.dead, if_pos ⟨hr.1, hzero⟩, hr.2] at hreturned
  cases hreturned

/-- **One more reference** is owed to whoever takes it. -/
theorem Ledger.retain (hl : Ledger children h owed dying) (hr : h.count r ≠ 0)
    (howed : ∀ x, owed' x = owed x + [r].count x) : Ledger children (h.retain r) owed' dying := by
  have hcount : ∀ x, (h.retain r).count x = h.count x + [r].count x := by
    intro x
    by_cases hx : x = r
    · subst hx
      simp [Heap.retain]
    · simp [Heap.retain, hx, Ne.symm hx]
  have hzero : ∀ x, (h.retain r).count x = 0 ↔ h.count x = 0 := by
    intro x
    by_cases hx : x = r
    · subst hx
      rw [hcount]
      omega
    · rw [hcount, List.count_singleton, if_neg (by simpa using Ne.symm hx), Nat.add_zero]
  refine ⟨fun x => ?_, fun x => ?_, fun x => ?_, fun x hx => ?_⟩
  · have hsame : (h.retain r).incoming children = h.incoming children := incoming_congr rfl rfl
    rw [hcount, howed, hl.counted x, hsame]
    omega
  · rw [hzero]
    exact hl.body_iff x
  · simp only [Heap.dead, hzero]
    exact hl.returned x
  · rw [hzero]
    exact hl.fresh x hx

/-- **A new object** takes over the references that it holds, and is owed itself. -/
theorem Ledger.alloc (hl : Ledger children h owed dying)
    (howed : ∀ x, owed' x + (children b).count x = owed x + [h.size].count x) :
    Ledger children (h.alloc b) owed' dying := by
  have hfresh := hl.fresh h.size le_rfl
  have hdead := hl.returned h.size
  rw [Heap.dead, if_neg fun h => absurd h.1 (Nat.lt_irrefl _)] at hdead
  refine ⟨fun x => ?_, fun x => ?_, fun x => ?_, fun x hx => ?_⟩
  · have hcounted := hl.counted x
    have hx := howed x
    rw [incoming_alloc]
    by_cases hsize : x = h.size
    · subst hsize
      simp only [Heap.alloc, Function.update_self, List.count_singleton_self] at hx ⊢
      omega
    · simp only [Heap.alloc, Function.update_of_ne hsize, List.count_singleton,
        beq_eq_false_iff_ne.mpr (Ne.symm hsize)] at hx ⊢
      simp only [Bool.false_eq_true, if_false] at hx
      omega
  · by_cases hsize : x = h.size
    · subst hsize
      simp [Heap.alloc]
    · simpa [Heap.alloc, hsize] using hl.body_iff x
  · by_cases hsize : x = h.size
    · subst hsize
      simpa [Heap.alloc, Heap.dead] using hdead
    · have hlt : x < h.size + 1 ↔ x < h.size := by omega
      simpa [Heap.alloc, Heap.dead, hsize, hlt] using hl.returned x
  · have hsize : x ≠ h.size := by
      rintro rfl
      exact absurd hx (Nat.not_succ_le_self _)
    simpa [Heap.alloc, hsize] using hl.fresh x (Nat.le_of_succ_le hx)

/-- **A new body** is paid for with the references that it holds, and gives back those
of the old one. -/
theorem Ledger.setBody {b' : β} (hl : Ledger children h owed dying) (hb : h.body r = some b)
    (howed : ∀ x, owed' x + (children b').count x = owed x + (children b).count x) :
    Ledger children (h.setBody r b') owed' dying := by
  have hcount := hl.count_of_body hb
  refine ⟨fun x => ?_, fun x => ?_, hl.returned, hl.fresh⟩
  · have hexchange : (h.setBody r b').incoming children x + (h.fields children r).count x =
        h.incoming children x + ((h.setBody r b').fields children r).count x :=
      incoming_update children h (h.setBody r b') rfl (hl.lt_size hb)
        (fun s hs => by simp [Heap.setBody, hs]) x
    rw [fields_of_body hb, fields_of_body (b := b') (by simp [Heap.setBody])] at hexchange
    have hcounted := hl.counted x
    have hx := howed x
    show h.count x = _
    omega
  · by_cases hx : x = r
    · subst hx
      simpa [Heap.setBody] using hcount
    · simpa [Heap.setBody, hx] using hl.body_iff x

/-- Lowering a count pays back one reference. -/
theorem Ledger.lower (hl : Ledger children h owed dying) (hr : 1 < h.count r) (owed' : ℕ → ℕ)
    (howed : ∀ x, owed x = owed' x + [r].count x) : Ledger children (h.lower r) owed' dying := by
  have hcount : ∀ x, h.count x = (h.lower r).count x + [r].count x := by
    intro x
    by_cases hx : x = r
    · subst hx
      simp only [Heap.lower, Function.update_self, List.count_singleton_self]
      omega
    · simp [Heap.lower, hx, Ne.symm hx]
  have hzero : ∀ x, (h.lower r).count x = 0 ↔ h.count x = 0 := by
    intro x
    by_cases hx : x = r
    · subst hx
      simp only [Heap.lower, Function.update_self]
      omega
    · simp [Heap.lower, hx]
  have hsame : (h.lower r).incoming children = h.incoming children := incoming_congr rfl rfl
  refine ⟨fun x => ?_, fun x => ?_, fun x => ?_, fun x hx => ?_⟩
  · have hcounted := hl.counted x
    have hx := howed x
    have hlowered := hcount x
    rw [hsame]
    omega
  · rw [hzero]
    exact hl.body_iff x
  · simp only [Heap.dead, hzero]
    exact hl.returned x
  · rw [hzero]
    exact hl.fresh x hx

/-- Taking an object apart pays back its last reference, and the references that it
holds are owed to nobody yet. -/
theorem Ledger.takeApart (hl : Ledger children h owed dying) (hr : h.count r = 1) (owed' : ℕ → ℕ)
    (howed : ∀ x, owed x + (h.fields children r).count x = owed' x + [r].count x) :
    Ledger children (h.takeApart r) owed' (r :: dying) := by
  have husable := hl.usable (by omega : h.count r ≠ 0)
  have hcount : ∀ x, h.count x = (h.takeApart r).count x + [r].count x := by
    intro x
    by_cases hx : x = r
    · subst hx
      simp [Heap.takeApart, Heap.lower, hr]
    · simp [Heap.takeApart, Heap.lower, hx, Ne.symm hx]
  have hbody : (h.takeApart r).body r = none := by simp [Heap.takeApart]
  have hother : ∀ x, x ≠ r → (h.takeApart r).count x = h.count x ∧
      (h.takeApart r).body x = h.body x := by
    intro x hx
    simp [Heap.takeApart, Heap.lower, hx]
  have hself : (h.takeApart r).count r = 0 := by
    have hlowered := hcount r
    rw [hr, List.count_singleton_self] at hlowered
    omega
  refine ⟨fun x => ?_, fun x => ?_, fun x => ?_, fun x hx => ?_⟩
  · have hexchange : (h.takeApart r).incoming children x + (h.fields children r).count x =
        h.incoming children x + ((h.takeApart r).fields children r).count x :=
      incoming_update children h (h.takeApart r) rfl husable.1 (fun s hs => (hother s hs).2) x
    rw [fields_of_none hbody, List.count_nil, Nat.add_zero] at hexchange
    have hcounted := hl.counted x
    have hx := howed x
    have hlowered := hcount x
    omega
  · by_cases hx : x = r
    · subst hx
      simp [hbody, hself]
    · rw [(hother x hx).1, (hother x hx).2]
      exact hl.body_iff x
  · have hreturned := hl.returned x
    by_cases hx : x = r
    · subst hx
      rw [Heap.dead, if_neg (by omega)] at hreturned
      rw [Heap.dead, if_pos ⟨husable.1, hself⟩, List.count_cons_self]
      show h.returned x + _ = 1
      omega
    · simp only [Heap.dead, (hother x hx).1, List.count_cons_of_ne (Ne.symm hx)]
      exact hreturned
  · have hne : x ≠ r := by
      rintro rfl
      exact absurd husable.1 (Nat.not_lt.mpr hx)
    rw [(hother x hne).1]
    exact hl.fresh x hx

/-- Returning the storage of an object that has been taken apart. -/
theorem Ledger.free (hl : Ledger children h owed (r :: dying)) :
    Ledger children (h.free r) owed dying := by
  have hsame : (h.free r).incoming children = h.incoming children := incoming_congr rfl rfl
  refine ⟨fun x => ?_, hl.body_iff, fun x => ?_, hl.fresh⟩
  · rw [hsame]
    exact hl.counted x
  · have hreturned := hl.returned x
    show (h.free r).returned x + dying.count x = h.dead x
    by_cases hx : x = r
    · subst hx
      rw [List.count_cons_self] at hreturned
      simp only [Heap.free, Function.update_self]
      omega
    · rw [List.count_cons_of_ne (Ne.symm hx)] at hreturned
      simpa [Heap.free, hx] using hreturned

theorem shrinks_lower (h : Heap β) (r : ℕ) : Shrinks h (h.lower r) :=
  ⟨rfl, fun _ => .inl rfl⟩

theorem shrinks_free (h : Heap β) (r : ℕ) : Shrinks h (h.free r) :=
  ⟨rfl, fun _ => .inl rfl⟩

theorem shrinks_takeApart (h : Heap β) (r : ℕ) : Shrinks h (h.takeApart r) := by
  refine ⟨rfl, fun x => ?_⟩
  by_cases hx : x = r
  · subst hx
    exact .inr (by simp [Heap.takeApart])
  · exact .inl (by simp [Heap.takeApart, hx])

/-- A release takes objects apart and does nothing else to them.  The induction is on the
steps of the release. -/
theorem drain_shrinks {tasks : List Task} {h' : Heap β}
    (hrun : drain children h tasks = some h') : Shrinks h h' := by
  induction h, tasks using RefCount.drain.induct children with
  | case1 h =>
      rw [RefCount.drain] at hrun
      cases hrun
      exact .refl _
  | case2 h r tasks ih =>
      rw [RefCount.drain] at hrun
      exact (shrinks_free h r).trans (ih hrun)
  | case3 h r tasks hr hcount ih =>
      rw [RefCount.drain, dif_pos hr, dif_pos hcount] at hrun
      exact ih hrun
  | case4 h r tasks hr hcount hone ih =>
      rw [RefCount.drain, dif_pos hr, dif_neg hcount, if_pos hone] at hrun
      exact (shrinks_takeApart h r).trans (ih hrun)
  | case5 h r tasks hr hcount hone ih =>
      rw [RefCount.drain, dif_pos hr, dif_neg hcount, if_neg hone] at hrun
      exact (shrinks_lower h r).trans (ih hrun)
  | case6 h r tasks hr =>
      rw [RefCount.drain, dif_neg hr] at hrun
      cases hrun

/-- **Releasing what is owed** never gets to returned storage, and keeps the ledger of
what remains owed.  The induction is on the steps of the release. -/
theorem Ledger.drain {tasks : List Task}
    (hl : Ledger children h (fun x => owed x + (releases tasks).count x) (frees tasks)) :
    ∃ h', drain children h tasks = some h' ∧ Ledger children h' owed [] ∧ Shrinks h h' := by
  induction h, tasks using RefCount.drain.induct children with
  | case1 h => exact ⟨h, by rw [RefCount.drain], by simpa using hl, .refl h⟩
  | case2 h r tasks ih =>
      rw [RefCount.drain]
      have hdying : Ledger children h (fun x => owed x + (releases tasks).count x)
          (r :: frees tasks) := hl
      obtain ⟨h', hrun, hl', hshrinks⟩ := ih hdying.free
      exact ⟨h', hrun, hl', (shrinks_free h r).trans hshrinks⟩
  | case3 h r tasks hr hcount ih =>
      -- the ledger says that an object with a reference to release has a count
      refine absurd hcount (hl.count_ne_zero (r := r) ?_)
      simp
  | case4 h r tasks hr hcount hone ih =>
      rw [RefCount.drain, dif_pos hr, dif_neg hcount, if_pos hone]
      have hnext := hl.takeApart (r := r) hone (fun x => owed x +
          (releases ((h.fields children r).map .release ++ .free r :: tasks)).count x)
        (fun x => by simp only [releases_release, releases_append, releases_map, releases_free,
          List.count_append, List.count_cons, List.count_nil]; omega)
      obtain ⟨h', hrun, hl', hshrinks⟩ := ih (by simpa using hnext)
      exact ⟨h', hrun, hl', (shrinks_takeApart h r).trans hshrinks⟩
  | case5 h r tasks hr hcount hone ih =>
      rw [RefCount.drain, dif_pos hr, dif_neg hcount, if_neg hone]
      have hnext := hl.lower (r := r) (by omega) (fun x => owed x + (releases tasks).count x)
        (fun x => by simp only [releases_release, List.count_cons, List.count_nil]; omega)
      obtain ⟨h', hrun, hl', hshrinks⟩ := ih hnext
      exact ⟨h', hrun, hl', (shrinks_lower h r).trans hshrinks⟩
  | case6 h r tasks hr =>
      refine absurd (hl.usable (r := r) (hl.count_ne_zero ?_)) hr
      simp

/-- What is still owed after a release has kept its body. -/
theorem Ledger.body_of_shrinks {h' : Heap β} (hl : Ledger children h' owed dying)
    (hshrinks : Shrinks h h') (hr : owed r ≠ 0) : h'.body r = h.body r := by
  rcases hshrinks.body r with heq | hnone
  · exact heq
  · exact absurd ((hl.body_iff r).mp hnone) (hl.count_ne_zero hr)

/-! ### What survives a release -/

/-- An object holds a reference to another one. -/
def Heap.Holds (children : β → List ℕ) (h : Heap β) (a b : ℕ) : Prop :=
  b ∈ h.fields children a

theorem holds_iff {a : ℕ} : h.Holds children a r ↔ ∃ b, h.body a = some b ∧ r ∈ children b := by
  unfold Heap.Holds
  cases hb : h.body a with
  | none => simp [fields_of_none hb]
  | some b => simp [fields_of_body hb]

/-- The objects of a set hold each other, or they are owed. -/
def Heap.HoldsUp (children : β → List ℕ) (h : Heap β) (owed : ℕ → ℕ) (s : Set ℕ) : Prop :=
  ∀ x ∈ s, owed x ≠ 0 ∨ ∃ a ∈ s, h.Holds children a x

/-- **An object is held** by what is owed or by an object that is held itself.  This is the
largest such property: the objects of a cycle hold each other. -/
def Heap.Held (children : β → List ℕ) (h : Heap β) (owed : ℕ → ℕ) (r : ℕ) : Prop :=
  ∃ s : Set ℕ, r ∈ s ∧ h.HoldsUp children owed s

theorem Ledger.incoming_pos {a : ℕ} (hl : Ledger children h owed dying)
    (hholds : h.Holds children a r) : 0 < h.incoming children r := by
  obtain ⟨b, hb, hmem⟩ := holds_iff.mp hholds
  refine Nat.pos_of_ne_zero fun hzero => ?_
  have hsum := Finset.sum_eq_zero_iff.mp hzero a (Finset.mem_range.mpr (hl.lt_size hb))
  rw [fields_of_body hb] at hsum
  exact List.count_eq_zero.mp hsum hmem

/-- What is held has a count, beyond the references that are to be released. -/
theorem Ledger.lt_count {s : Set ℕ} {due : ℕ → ℕ}
    (hl : Ledger children h (fun x => owed x + due x) dying) (hs : h.HoldsUp children owed s)
    (hr : r ∈ s) : due r < h.count r := by
  have hcounted := hl.counted r
  rcases hs r hr with howed | ⟨a, -, hholds⟩
  · omega
  · have hincoming := hl.incoming_pos hholds
    omega

/-- Objects that hold each other stay when one that is not among them is taken apart. -/
theorem Heap.HoldsUp.takeApart {s : Set ℕ} (hs : h.HoldsUp children owed s) (hr : r ∉ s) :
    (h.takeApart r).HoldsUp children owed s := by
  intro x hx
  rcases hs x hx with howed | ⟨a, ha, hholds⟩
  · exact .inl howed
  · refine .inr ⟨a, ha, ?_⟩
    have hne : a ≠ r := by
      rintro rfl
      exact hr ha
    have hbody : (h.takeApart r).body a = h.body a := by
      simp [Heap.takeApart, hne]
    rw [Heap.Holds, Heap.fields, hbody]
    exact hholds

/-- Objects that are held survive a release.  The induction is on its steps: no step takes
one of them apart. -/
theorem Ledger.count_ne_zero_of_holdsUp {tasks : List Task} {h' : Heap β} {s : Set ℕ}
    (hl : Ledger children h (fun x => owed x + (releases tasks).count x) (frees tasks))
    (hrun : RefCount.drain children h tasks = some h') (hs : h.HoldsUp children owed s)
    (hr : r ∈ s) : h'.count r ≠ 0 := by
  induction h, tasks using RefCount.drain.induct children with
  | case1 h =>
      rw [RefCount.drain] at hrun
      cases hrun
      have hlt := hl.lt_count hs hr
      omega
  | case2 h x tasks ih =>
      rw [RefCount.drain] at hrun
      have hdying : Ledger children h (fun y => owed y + (releases tasks).count y)
          (x :: frees tasks) := hl
      exact ih hdying.free hrun hs
  | case3 h x tasks hx hcount ih =>
      refine absurd hcount (hl.count_ne_zero (r := x) ?_)
      simp
  | case4 h x tasks hx hcount hone ih =>
      rw [RefCount.drain, dif_pos hx, dif_neg hcount, if_pos hone] at hrun
      have hnot : x ∉ s := by
        intro hmem
        have hlt := hl.lt_count hs hmem
        rw [releases_release, List.count_cons_self, hone] at hlt
        omega
      have hnext := hl.takeApart (r := x) hone (fun y => owed y +
          (releases ((h.fields children x).map .release ++ .free x :: tasks)).count y)
        (fun y => by simp only [releases_release, releases_append, releases_map, releases_free,
          List.count_append, List.count_cons, List.count_nil]; omega)
      exact ih (by simpa using hnext) hrun (hs.takeApart hnot)
  | case5 h x tasks hx hcount hone ih =>
      rw [RefCount.drain, dif_pos hx, dif_neg hcount, if_neg hone] at hrun
      have hnext := hl.lower (r := x) (by omega) (fun y => owed y + (releases tasks).count y)
        (fun y => by simp only [releases_release, List.count_cons, List.count_nil]; omega)
      exact ih hnext hrun hs
  | case6 h x tasks hx =>
      rw [RefCount.drain, dif_neg hx] at hrun
      cases hrun

/-- **What survives a release** is what is held without the references that are released.
What is left is such a set itself. -/
theorem Ledger.survives_iff {tasks : List Task} {h' : Heap β}
    (hl : Ledger children h (fun x => owed x + (releases tasks).count x) (frees tasks))
    (hrun : RefCount.drain children h tasks = some h') :
    h'.count r ≠ 0 ↔ h.Held children owed r := by
  constructor
  · intro hcount
    refine ⟨{x | h'.count x ≠ 0}, hcount, fun x hx => ?_⟩
    obtain ⟨h'', hrun'', hl', hshrinks⟩ := hl.drain
    rw [hrun] at hrun''
    cases hrun''
    have hcounted := hl'.counted x
    by_cases howed : owed x = 0
    · have hpos : h'.count x ≠ 0 := hx
      obtain ⟨a, b, hb, hmem⟩ := exists_of_incoming_pos (by omega : 0 < h'.incoming children x)
      refine .inr ⟨a, hl'.count_of_body hb, holds_iff.mpr ⟨b, ?_, hmem⟩⟩
      rcases hshrinks.body a with heq | hnone
      · exact heq ▸ hb
      · rw [hnone] at hb
        cases hb
    · exact .inl howed
  · rintro ⟨s, hr, hs⟩
    exact hl.count_ne_zero_of_holdsUp hrun hs hr

/-- An object that does not survive is taken apart. -/
theorem Ledger.body_eq_none_iff {tasks : List Task} {h' : Heap β}
    (hl : Ledger children h (fun x => owed x + (releases tasks).count x) (frees tasks))
    (hrun : RefCount.drain children h tasks = some h') :
    h'.body r = none ↔ ¬ h.Held children owed r := by
  obtain ⟨h'', hrun', hl', -⟩ := hl.drain
  rw [hrun] at hrun'
  cases hrun'
  rw [hl'.body_iff, ← hl.survives_iff hrun, Classical.not_not]

/-! ### What survives the release of references of one object -/

/-- **An object is held without some references** that another one gives up. -/
def Heap.HeldWithout (children : β → List ℕ) (h : Heap β) (owed : ℕ → ℕ) (r : ℕ)
    (gone : List ℕ) (x : ℕ) : Prop :=
  ∃ s : Set ℕ, x ∈ s ∧ ∀ y ∈ s, owed y ≠ 0 ∨ ∃ a ∈ s, h.Holds children a y ∧
    (a = r → gone.count y < (h.fields children r).count y)

section Without

variable {h' : Heap β} {gone : List ℕ} {lost : ℕ → ℕ} {x : ℕ}

/-- The heap in which an object has given up references, and others are owed instead. -/
structure GivesUp (children : β → List ℕ) (h h' : Heap β) (r : ℕ) (gone : List ℕ)
    (lost : ℕ → ℕ) : Prop where
  others : ∀ a, a ≠ r → h'.body a = h.body a
  fields : ∀ y, (h'.fields children r).count y + gone.count y + lost y =
    (h.fields children r).count y

theorem GivesUp.holds_iff_of_ne (hg : GivesUp children h h' r gone lost) {a : ℕ} (ha : a ≠ r) :
    h'.Holds children a x ↔ h.Holds children a x := by
  rw [Heap.Holds, Heap.Holds, Heap.fields, Heap.fields, hg.others a ha]

theorem GivesUp.held (hg : GivesUp children h h' r gone lost)
    (hx : h.HeldWithout children owed r gone x) :
    h'.Held children (fun y => owed y + lost y) x := by
  obtain ⟨s, hxs, hs⟩ := hx
  refine ⟨s, hxs, fun y hy => ?_⟩
  rcases hs y hy with howed | ⟨a, ha, hholds, hbeyond⟩
  · exact .inl (show owed y + lost y ≠ 0 by omega)
  by_cases har : a = r
  · have hfields := hg.fields y
    have hmore := hbeyond har
    by_cases hlost : lost y = 0
    · refine .inr ⟨a, ha, ?_⟩
      rw [har]
      exact List.count_pos_iff.mp (by omega)
    · exact .inl (show owed y + lost y ≠ 0 by omega)
  · exact .inr ⟨a, ha, (hg.holds_iff_of_ne har).mpr hholds⟩

/-- An object that is held next to the one that has given up references is held without
them. -/
theorem GivesUp.heldWithout (hg : GivesUp children h h' r gone lost)
    (hr : h'.Held children (fun y => owed y + lost y) r)
    (hx : h'.Held children (fun y => owed y + lost y) x) :
    h.HeldWithout children owed r gone x := by
  obtain ⟨s, hrs, hs⟩ := hr
  obtain ⟨t, hxt, ht⟩ := hx
  have hunion : h'.HoldsUp children (fun y => owed y + lost y) (s ∪ t) := by
    rintro y (hy | hy)
    · exact (hs y hy).imp_right fun ⟨a, ha, hholds⟩ => ⟨a, .inl ha, hholds⟩
    · exact (ht y hy).imp_right fun ⟨a, ha, hholds⟩ => ⟨a, .inr ha, hholds⟩
  -- what is lost and what is still held was held by the object in the set itself
  have hself : ∀ y, gone.count y < (h.fields children r).count y →
      ∃ a ∈ s ∪ t, h.Holds children a y ∧
        (a = r → gone.count y < (h.fields children r).count y) := fun y hlt =>
    ⟨r, .inl hrs, List.count_pos_iff.mp (by omega), fun _ => hlt⟩
  refine ⟨s ∪ t, .inr hxt, fun y hy => ?_⟩
  have hfields := hg.fields y
  rcases hunion y hy with howed | ⟨a, ha, hholds⟩
  · have howed' : owed y + lost y ≠ 0 := howed
    by_cases hzero : owed y = 0
    · exact .inr (hself y (by omega))
    · exact .inl hzero
  · by_cases har : a = r
    · have hpos : 0 < (h'.fields children r).count y := by
        rw [har] at hholds
        exact List.count_pos_iff.mpr hholds
      exact .inr (hself y (by omega))
    · exact .inr ⟨a, ha, (hg.holds_iff_of_ne har).mp hholds, fun heq => absurd heq har⟩

/-- Giving up nothing leaves everything with a count held. -/
theorem Ledger.heldWithout_nil (hl : Ledger children h owed []) (hx : h.count x ≠ 0) :
    h.HeldWithout children owed r [] x := by
  refine ⟨{y | h.count y ≠ 0}, hx, fun y hy => ?_⟩
  have hcounted := hl.counted y
  by_cases howed : owed y = 0
  · have hpos : h.count y ≠ 0 := hy
    obtain ⟨a, b, hb, hmem⟩ := exists_of_incoming_pos (by omega : 0 < h.incoming children y)
    have hholds : h.Holds children a y := holds_iff.mpr ⟨b, hb, hmem⟩
    refine .inr ⟨a, hl.count_of_body hb, hholds, ?_⟩
    rintro rfl
    exact List.count_pos_iff.mpr hholds
  · exact .inl howed

/-- A new object without references of its own holds nothing. -/
theorem Ledger.heldWithout_alloc_iff {b : β} (hl : Ledger children h owed [])
    (hb : children b = []) (hx : x ≠ h.size) :
    (h.alloc b).HeldWithout children (fun y => owed y + if y = h.size then 1 else 0) r gone x ↔
      h.HeldWithout children owed r gone x := by
  have hfields (a : ℕ) : (h.alloc b).fields children a = h.fields children a := by
    by_cases ha : a = h.size
    · have hnew : (h.alloc b).body a = some b := by simp [Heap.alloc, ha]
      have hold : h.body a = none := (hl.body_iff a).mpr (hl.fresh a ha.ge)
      rw [fields_of_body hnew, fields_of_none hold, hb]
    · simp [Heap.fields, Heap.alloc, ha]
  have hnothing (y : ℕ) : ¬ h.Holds children h.size y := by
    have hold : h.body h.size = none := (hl.body_iff h.size).mpr (hl.fresh h.size le_rfl)
    rw [Heap.Holds, fields_of_none hold]
    exact List.not_mem_nil
  constructor
  · rintro ⟨s, hxs, hs⟩
    refine ⟨s \ {h.size}, ⟨hxs, hx⟩, fun y ⟨hy, hne⟩ => ?_⟩
    rcases hs y hy with howed | ⟨a, ha, hholds, hbeyond⟩
    · have howed' : owed y + (if y = h.size then 1 else 0) ≠ 0 := howed
      rw [if_neg (show ¬ y = h.size from hne), Nat.add_zero] at howed'
      exact .inl howed'
    · rw [Heap.Holds, hfields] at hholds
      rw [hfields] at hbeyond
      refine .inr ⟨a, ⟨ha, ?_⟩, hholds, hbeyond⟩
      rintro rfl
      exact hnothing y hholds
  · rintro ⟨s, hxs, hs⟩
    refine ⟨s, hxs, fun y hy => ?_⟩
    rcases hs y hy with howed | ⟨a, ha, hholds, hbeyond⟩
    · exact .inl (show owed y + (if y = h.size then 1 else 0) ≠ 0 by omega)
    · refine .inr ⟨a, ha, ?_, ?_⟩
      · rwa [Heap.Holds, hfields]
      · rwa [hfields]

end Without

/-! ### References that go with the objects that are taken apart -/

/-- The references to an object that the objects which have been taken apart held. -/
def Heap.goneWith (children : β → List ℕ) (h h' : Heap β) (x : ℕ) : ℕ :=
  ∑ a ∈ Finset.range h.size, if h'.body a = none then (h.fields children a).count x else 0

variable (children) in
/-- **The references to an object** after one object has changed and others have been taken
apart. -/
theorem incoming_exchange {h' : Heap β} (hsize : h'.size = h.size) (hr : r < h.size)
    (hkept : h'.body r ≠ none)
    (hbody : ∀ a, a ≠ r → h'.body a = h.body a ∨ h'.body a = none) (x : ℕ) :
    h'.incoming children x + (h.fields children r).count x + h.goneWith children h' x =
      h.incoming children x + (h'.fields children r).count x := by
  have hmem : r ∈ Finset.range h.size := Finset.mem_range.mpr hr
  have hrest : ∑ a ∈ (Finset.range h.size).erase r,
      ((h'.fields children a).count x +
        if h'.body a = none then (h.fields children a).count x else 0) =
      ∑ a ∈ (Finset.range h.size).erase r, (h.fields children a).count x := by
    refine Finset.sum_congr rfl fun a ha => ?_
    rcases hbody a (Finset.ne_of_mem_erase ha) with hsame | hnone
    · by_cases hnone : h'.body a = none
      · rw [if_pos hnone, fields_of_none hnone, List.count_nil, Nat.zero_add]
      · rw [if_neg hnone, Heap.fields, Heap.fields, hsame, Nat.add_zero]
    · rw [if_pos hnone, fields_of_none hnone, List.count_nil, Nat.zero_add]
  rw [Finset.sum_add_distrib] at hrest
  have hnew := Finset.sum_erase_add _ (fun a => (h'.fields children a).count x) hmem
  have hold := Finset.sum_erase_add _ (fun a => (h.fields children a).count x) hmem
  have hgone := Finset.sum_erase_add _
    (fun a => if h'.body a = none then (h.fields children a).count x else 0) hmem
  simp only [if_neg hkept] at hgone
  simp only [Heap.incoming, Heap.goneWith, hsize]
  omega

variable (children) in
/-- The same when no object has changed. -/
theorem incoming_shrinks {h' : Heap β} (hshrinks : Shrinks h h') (x : ℕ) :
    h'.incoming children x + h.goneWith children h' x = h.incoming children x := by
  rw [Heap.incoming, Heap.incoming, Heap.goneWith, hshrinks.size, ← Finset.sum_add_distrib]
  refine Finset.sum_congr rfl fun a _ => ?_
  rcases hshrinks.body a with hsame | hnone
  · by_cases hnone : h'.body a = none
    · rw [if_pos hnone, fields_of_none hnone, List.count_nil, Nat.zero_add]
    · rw [if_neg hnone, Heap.fields, Heap.fields, hsame, Nat.add_zero]
  · rw [if_pos hnone, fields_of_none hnone, List.count_nil, Nat.zero_add]

/-! ### Storage that has been returned already -/

theorem drain_append (tasks tasks' : List Task) :
    RefCount.drain children h (tasks ++ tasks') =
      (RefCount.drain children h tasks).bind fun h => RefCount.drain children h tasks' := by
  induction h, tasks using RefCount.drain.induct children with
  | case1 h => rw [RefCount.drain, List.nil_append, Option.bind_some]
  | case2 h r tasks ih => rw [List.cons_append, RefCount.drain, ih, RefCount.drain]
  | case3 h r tasks hr hcount ih =>
      rw [List.cons_append, RefCount.drain, dif_pos hr, dif_pos hcount, ih, RefCount.drain,
        dif_pos hr, dif_pos hcount]
  | case4 h r tasks hr hcount hone ih =>
      rw [List.cons_append, RefCount.drain, dif_pos hr, dif_neg hcount, if_pos hone,
        RefCount.drain, dif_pos hr, dif_neg hcount, if_pos hone, ← ih, List.append_assoc,
        List.cons_append]
  | case5 h r tasks hr hcount hone ih =>
      rw [List.cons_append, RefCount.drain, dif_pos hr, dif_neg hcount, if_neg hone, ih,
        RefCount.drain, dif_pos hr, dif_neg hcount, if_neg hone]
  | case6 h r tasks hr =>
      rw [List.cons_append, RefCount.drain, dif_neg hr, RefCount.drain, dif_neg hr,
        Option.bind_none]

/-- **A release on a heap some of whose storage has been returned** gets to none of it
exactly when no reference that is released is to such an object, and no object that is
taken apart refers to one.  The induction is on the steps of the release on the whole
heap. -/
theorem Ledger.drain_withdraw {tasks : List Task} {h' : Heap β} (p : ℕ → Bool)
    (hl : Ledger children h (fun x => owed x + (releases tasks).count x) (frees tasks))
    (hrun : RefCount.drain children h tasks = some h') :
    (RefCount.drain children (h.withdraw p) tasks).isSome = true ↔
      (∀ x ∈ releases tasks, p x = false) ∧
        ∀ x b, h.body x = some b → h'.body x = none → ∀ y ∈ children b, p y = false := by
  have husable : ∀ (h : Heap β) x, h.Usable x → ((h.withdraw p).Usable x ↔ p x = false) := by
    intro h x hx
    simp [Heap.Usable, Heap.withdraw, hx.1, hx.2]
  induction h, tasks using RefCount.drain.induct children with
  | case1 h =>
      rw [RefCount.drain] at hrun
      cases hrun
      refine iff_of_true (by rw [RefCount.drain]; rfl) ⟨fun x hx => absurd hx List.not_mem_nil, ?_⟩
      intro x b hb hnone
      rw [hb] at hnone
      cases hnone
  | case2 h x tasks ih =>
      rw [RefCount.drain] at hrun
      have hdying : Ledger children h (fun y => owed y + (releases tasks).count y)
          (x :: frees tasks) := hl
      have hcomm : (h.withdraw p).free x = (h.free x).withdraw p := by
        simp only [Heap.free, Heap.withdraw, Heap.mk.injEq, and_true, true_and]
        funext y
        by_cases hy : y = x
        · subst hy
          rw [Function.update_self, Function.update_self]
          omega
        · rw [Function.update_of_ne hy, Function.update_of_ne hy]
      rw [RefCount.drain, hcomm]
      exact ih hdying.free hrun
  | case3 h x tasks hx hcount ih =>
      refine absurd hcount (hl.count_ne_zero (r := x) ?_)
      simp
  | case4 h x tasks hx hcount hone ih =>
      rw [RefCount.drain, dif_pos hx, dif_neg hcount, if_pos hone] at hrun
      have hnext := hl.takeApart (r := x) hone (fun y => owed y +
          (releases ((h.fields children x).map .release ++ .free x :: tasks)).count y)
        (fun y => by simp only [releases_release, releases_append, releases_map, releases_free,
          List.count_append, List.count_cons, List.count_nil]; omega)
      have hrest := ih (by simpa using hnext) hrun
      by_cases hp : p x = false
      · rw [RefCount.drain, dif_pos ((husable h x hx).mpr hp)]
        rw [dif_neg (show ¬ (h.withdraw p).count x = 0 from hcount),
          if_pos (show (h.withdraw p).count x = 1 from hone)]
        refine hrest.trans ?_
        have hself : h'.body x = none := by
          obtain hgone | hgone := (drain_shrinks hrun).body x
          · rw [hgone]
            simp [Heap.takeApart]
          · exact hgone
        have hother : ∀ y, y ≠ x → (h.takeApart x).body y = h.body y := by
          intro y hy
          simp [Heap.takeApart, hy]
        simp only [releases_append, releases_map, releases_free, releases_release,
          List.mem_append, List.mem_cons]
        constructor
        · rintro ⟨hroots, hinner⟩
          refine ⟨?_, fun y b hb hnone => ?_⟩
          · rintro y (rfl | hy)
            · exact hp
            · exact hroots y (.inr hy)
          · by_cases hyx : y = x
            · subst hyx
              exact fun z hz => hroots z (.inl (by rwa [fields_of_body hb]))
            · exact hinner y b ((hother y hyx).trans hb) hnone
        · rintro ⟨hroots, hinner⟩
          refine ⟨?_, fun y b hb hnone => ?_⟩
          · rintro y (hy | hy)
            · cases hb : h.body x with
              | none => exact absurd ((hl.body_iff x).mp hb) hcount
              | some b =>
                  rw [fields_of_body hb] at hy
                  exact hinner x b hb hself y hy
            · exact hroots y (.inr hy)
          · have hyx : y ≠ x := by
              rintro rfl
              simp [Heap.takeApart] at hb
            exact hinner y b ((hother y hyx).symm.trans hb) hnone
      · rw [RefCount.drain, dif_neg fun h' => hp ((husable h x hx).mp h')]
        refine iff_of_false (by simp) fun hall => hp (hall.1 x (by simp))
  | case5 h x tasks hx hcount hone ih =>
      rw [RefCount.drain, dif_pos hx, dif_neg hcount, if_neg hone] at hrun
      have hnext := hl.lower (r := x) (by omega) (fun y => owed y + (releases tasks).count y)
        (fun y => by simp only [releases_release, List.count_cons, List.count_nil]; omega)
      have hrest := ih hnext hrun
      by_cases hp : p x = false
      · rw [RefCount.drain, dif_pos ((husable h x hx).mpr hp)]
        rw [dif_neg (show ¬ (h.withdraw p).count x = 0 from hcount),
          if_neg (show ¬ (h.withdraw p).count x = 1 from hone)]
        refine hrest.trans ?_
        simp only [releases_release, List.forall_mem_cons]
        exact and_congr_left' ⟨fun h => ⟨hp, h⟩, fun h => h.2⟩
      · rw [RefCount.drain, dif_neg fun h' => hp ((husable h x hx).mp h')]
        refine iff_of_false (by simp) fun hall => hp (hall.1 x (by simp))
  | case6 h x tasks hx =>
      rw [RefCount.drain, dif_neg hx] at hrun
      cases hrun

/-! ### Once nothing is owed -/

/-- The references of the heap make no cycle. -/
def Heap.Acyclic (children : β → List ℕ) (h : Heap β) : Prop :=
  ∀ a, ¬ TransGen (h.Holds children) a a

/-- References to older objects make no cycle. -/
theorem acyclic_of_older (h : Heap β) (holder : ∀ a b, h.Holds children a b → b < a) :
    h.Acyclic children := by
  intro a hcycle
  have hlt : ∀ b, TransGen (h.Holds children) a b → b < a := by
    intro b hb
    induction hb with
    | single hholds => exact holder _ _ hholds
    | tail _ hholds ih => exact (holder _ _ hholds).trans ih
  exact Nat.lt_irrefl a (hlt a hcycle)

/-- A heap that has shrunk has no more references. -/
theorem Heap.Acyclic.shrinks {h' : Heap β} (hacyclic : h.Acyclic children)
    (hshrinks : Shrinks h h') : h'.Acyclic children := by
  have hholds : ∀ a b, h'.Holds children a b → h.Holds children a b := by
    intro a b hab
    obtain ⟨body, hbody, hb⟩ := holds_iff.mp hab
    rcases hshrinks.body a with heq | hnone
    · exact holds_iff.mpr ⟨body, heq ▸ hbody, hb⟩
    · rw [hnone] at hbody
      cases hbody
  exact fun a hcycle => hacyclic a (TransGen.mono hholds a a hcycle)

/-- **An object with a count is reached from one that is owed**, when no references make
a cycle.  The induction goes up along the references. -/
theorem Ledger.exists_owed (hl : Ledger children h owed dying) (hacyclic : h.Acyclic children)
    (hr : h.count r ≠ 0) : ∃ a, owed a ≠ 0 ∧ ReflTransGen (h.Holds children) a r := by
  have hlt : ∀ a, ReflTransGen (Function.swap (h.Holds children)) r a → a < h.size := by
    intro a ha
    rcases ha.cases_tail with rfl | ⟨c, -, hholds⟩
    · exact (hl.usable hr).1
    · obtain ⟨b, hb, -⟩ := holds_iff.mp (show h.Holds children a c from hholds)
      exact hl.lt_size hb
  have hacc := acc_of_acyclic (r := Function.swap (h.Holds children))
    ((Set.finite_lt_nat h.size).subset hlt)
    fun a _ hcycle => hacyclic a (transGen_swap.mp hcycle)
  clear hlt
  induction hacc with
  | intro r _ ih =>
      by_cases howed : owed r = 0
      · have hcounted := hl.counted r
        have hincoming : 0 < h.incoming children r := by omega
        obtain ⟨s, b, hb, hmem⟩ := exists_of_incoming_pos hincoming
        have hholds : h.Holds children s r := holds_iff.mpr ⟨b, hb, hmem⟩
        obtain ⟨a, ha, hreach⟩ := ih s hholds (hl.count_of_body hb)
        exact ⟨a, ha, hreach.tail hholds⟩
      · exact ⟨r, howed, .refl⟩

/-- An object without references has been returned once. -/
theorem Ledger.returned_of_count (hl : Ledger children h owed []) (hr : r < h.size)
    (hcount : h.count r = 0) : h.returned r = 1 := by
  have hreturned := hl.returned r
  rwa [Heap.dead, if_pos ⟨hr, hcount⟩, List.count_nil, Nat.add_zero] at hreturned

end Ledger

end RefCount
end BreadLang
