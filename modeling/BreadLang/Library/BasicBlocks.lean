import Mathlib.Data.List.Basic
import Mathlib.Data.List.Infix
import Mathlib.Data.List.Nodup

/-!
# Building basic blocks

A builder appends instructions and terminators to the block it is positioned at.
Nothing keeps it from appending to a block that has a terminator already: a block is
`Complete` when it has one, at its end, and `Open` when it has none.

`Progress b pending b'` says that a piece of code has been built so far as it should be:
the builder has got from `b` to `b'`, the `pending` blocks are still empty, and every
other block that it has left is complete; `Builds` adds whether control leaves the last one.
A block that is neither open nor complete stays so (`Spoilt.extends`), and `Lays` is for code
that may come to that.
-/

namespace BreadLang

namespace BasicBlocks

variable {I T : Type}

/-- What is appended to a block. -/
inductive Item (I T : Type) where
  | instr (i : I)
  | terminator (t : T)

/-- Whether an item ends a block. -/
def Item.isTerminator : Item I T → Bool
  | .instr _ => false
  | .terminator _ => true

/-- The blocks of a function, in the order of their creation, and the one at the end of
which the builder is positioned. -/
structure Builder (I T : Type) where
  blocks : List (List (Item I T))
  current : ℕ
  current_lt : current < blocks.length

namespace Builder

variable {b b' b'' : Builder I T} {x : Item I T} {i : ℕ} {pending : List ℕ}

/-- One empty block. -/
def entry : Builder I T where
  blocks := [[]]
  current := 0
  current_lt := Nat.zero_lt_one

/-- The number of blocks. -/
def size (b : Builder I T) : ℕ :=
  b.blocks.length

/-- The items of a block. -/
def block (b : Builder I T) (i : ℕ) : List (Item I T) :=
  b.blocks.getD i []

/-- Append to the current block. -/
def append (b : Builder I T) (x : Item I T) : Builder I T where
  blocks := b.blocks.modify b.current (· ++ [x])
  current := b.current
  current_lt := by
    rw [List.length_modify]
    exact b.current_lt

/-- Create empty blocks. -/
def addBlocks (b : Builder I T) (n : ℕ) : Builder I T where
  blocks := b.blocks ++ List.replicate n []
  current := b.current
  current_lt := by
    rw [List.length_append]
    exact Nat.lt_add_right _ b.current_lt

/-- Go to the end of a block. -/
def positionAt (b : Builder I T) (i : ℕ) : Builder I T :=
  if h : i < b.blocks.length then { b with current := i, current_lt := h } else b

/-- Whether the last item of the current block is a terminator. -/
def hasTerminator (b : Builder I T) : Bool :=
  (b.block b.current).getLast?.any Item.isTerminator

/-! ### What the operations change -/

@[simp] theorem size_append (b : Builder I T) (x : Item I T) : (b.append x).size = b.size :=
  List.length_modify _ _ _

@[simp] theorem current_append (b : Builder I T) (x : Item I T) :
    (b.append x).current = b.current := rfl

@[simp] theorem size_addBlocks (b : Builder I T) (n : ℕ) : (b.addBlocks n).size = b.size + n := by
  simp [size, addBlocks]

@[simp] theorem current_addBlocks (b : Builder I T) (n : ℕ) :
    (b.addBlocks n).current = b.current := rfl

theorem addBlocks_addBlocks (b : Builder I T) (m n : ℕ) :
    (b.addBlocks m).addBlocks n = b.addBlocks (m + n) := by
  simp only [addBlocks, List.append_assoc, List.replicate_append_replicate]

@[simp] theorem size_positionAt (b : Builder I T) (i : ℕ) : (b.positionAt i).size = b.size := by
  rw [positionAt]
  split <;> rfl

theorem current_positionAt (h : i < b.size) : (b.positionAt i).current = i := by
  rw [size] at h
  rw [positionAt, dif_pos h]

theorem block_append (b : Builder I T) (x : Item I T) (i : ℕ) :
    (b.append x).block i = if i = b.current then b.block i ++ [x] else b.block i := by
  rw [block, append, List.getD_eq_getElem?_getD, List.getElem?_modify, block,
    List.getD_eq_getElem?_getD]
  by_cases h : b.current = i
  · subst h
    rw [List.getElem?_eq_getElem b.current_lt]
    simp
  · simp [h, Ne.symm h]

@[simp] theorem block_append_current (b : Builder I T) (x : Item I T) :
    (b.append x).block b.current = b.block b.current ++ [x] := by
  rw [block_append, if_pos rfl]

@[simp] theorem block_addBlocks (b : Builder I T) (n i : ℕ) :
    (b.addBlocks n).block i = b.block i := by
  simp only [block, addBlocks, List.getD_eq_getElem?_getD, List.getElem?_append]
  split
  next => rfl
  next h =>
    rw [List.getElem?_eq_none (Nat.le_of_not_lt h), List.getElem?_replicate]
    split <;> rfl

@[simp] theorem block_positionAt (b : Builder I T) (i j : ℕ) :
    (b.positionAt i).block j = b.block j := by
  rw [positionAt]
  split <;> rfl

theorem block_of_size_le (h : b.size ≤ i) : b.block i = [] := by
  rw [block, List.getD_eq_getElem?_getD, List.getElem?_eq_none h]
  rfl

/-! ### Open and complete blocks -/

/-- A list of items without a terminator. -/
def IsOpen (xs : List (Item I T)) : Prop :=
  ∀ x ∈ xs, x.isTerminator = false

/-- A list of items with exactly one terminator, at its end. -/
def IsComplete (xs : List (Item I T)) : Prop :=
  ∃ ys t, IsOpen ys ∧ xs = ys ++ [Item.terminator t]

/-- **Every block has exactly one terminator**, and nothing after it. -/
def WellFormed (b : Builder I T) : Prop :=
  ∀ i < b.size, IsComplete (b.block i)

theorem isOpen_nil : IsOpen ([] : List (Item I T)) :=
  fun _ hx => absurd hx List.not_mem_nil

theorem IsOpen.instr {xs : List (Item I T)} (h : IsOpen xs) (i : I) : IsOpen (xs ++ [.instr i]) := by
  intro x hx
  rcases List.mem_append.mp hx with hx | hx
  · exact h x hx
  · rw [List.mem_singleton.mp hx]
    rfl

theorem IsOpen.terminator {xs : List (Item I T)} (h : IsOpen xs) (t : T) :
    IsComplete (xs ++ [.terminator t]) :=
  ⟨xs, t, h, rfl⟩

theorem IsComplete.not_isOpen {xs : List (Item I T)} (h : IsComplete xs) : ¬ IsOpen xs := by
  obtain ⟨ys, t, -, rfl⟩ := h
  intro hopen
  exact absurd (hopen (.terminator t) (by simp)) (by simp [Item.isTerminator])

/-- Neither open nor complete: something follows a terminator. -/
def IsSpoilt (xs : List (Item I T)) : Prop :=
  ¬ IsOpen xs ∧ ¬ IsComplete xs

theorem IsOpen.of_append {xs ys : List (Item I T)} (h : IsOpen (xs ++ ys)) : IsOpen xs :=
  fun x hx => h x (List.mem_append_left _ hx)

/-- What is appended to a block with a terminator spoils it. -/
theorem isSpoilt_append {xs ys : List (Item I T)} (h : ¬ IsOpen xs) (hys : ys ≠ []) :
    IsSpoilt (xs ++ ys) := by
  refine ⟨fun hopen => h hopen.of_append, ?_⟩
  rintro ⟨zs, t, hopen, heq⟩
  rw [← List.dropLast_append_getLast hys, ← List.append_assoc] at heq
  obtain ⟨hzs, -⟩ := List.append_inj' heq rfl
  rw [← hzs] at hopen
  exact h hopen.of_append

theorem IsSpoilt.append {xs : List (Item I T)} (h : IsSpoilt xs) (ys : List (Item I T)) :
    IsSpoilt (xs ++ ys) := by
  rcases eq_or_ne ys [] with rfl | hys
  · rwa [List.append_nil]
  · exact isSpoilt_append h.1 hys

theorem hasTerminator_of_isOpen (h : IsOpen (b.block b.current)) : b.hasTerminator = false := by
  rw [hasTerminator]
  cases hlast : (b.block b.current).getLast? with
  | none => rfl
  | some x => exact h x (List.mem_of_getLast? hlast)

theorem hasTerminator_of_isComplete (h : IsComplete (b.block b.current)) :
    b.hasTerminator = true := by
  obtain ⟨ys, t, -, heq⟩ := h
  rw [hasTerminator, heq, List.getLast?_append]
  rfl

/-! ### Blocks only grow -/

/-- The blocks of the second builder start with those of the first one. -/
def Extends (b b' : Builder I T) : Prop :=
  b.size ≤ b'.size ∧ ∀ i, b.block i <+: b'.block i

theorem Extends.refl (b : Builder I T) : Extends b b :=
  ⟨le_rfl, fun _ => List.prefix_rfl⟩

theorem Extends.trans (h : Extends b b') (h' : Extends b' b'') : Extends b b'' :=
  ⟨h.1.trans h'.1, fun i => (h.2 i).trans (h'.2 i)⟩

theorem Extends.append (h : Extends b b') (x : Item I T) : Extends b (b'.append x) := by
  refine h.trans ⟨(size_append b' x).ge, fun i => ?_⟩
  rw [block_append]
  split
  next => exact List.prefix_append _ _
  next => exact List.prefix_rfl

theorem Extends.addBlocks (h : Extends b b') (n : ℕ) : Extends b (b'.addBlocks n) := by
  refine h.trans ⟨?_, fun i => ?_⟩
  · rw [size_addBlocks]
    exact Nat.le_add_right _ _
  · rw [block_addBlocks]

theorem Extends.positionAt (h : Extends b b') (i : ℕ) : Extends b (b'.positionAt i) := by
  refine h.trans ⟨(size_positionAt b' i).ge, fun j => ?_⟩
  rw [block_positionAt]

/-- Some block is spoilt. -/
def Spoilt (b : Builder I T) : Prop :=
  ∃ i < b.size, IsSpoilt (b.block i)

theorem Spoilt.extends (h : Spoilt b) (hb : Extends b b') : Spoilt b' := by
  obtain ⟨i, hi, hspoilt⟩ := h
  refine ⟨i, hi.trans_le hb.1, ?_⟩
  obtain ⟨ys, hys⟩ := hb.2 i
  rw [← hys]
  exact hspoilt.append ys

theorem Spoilt.not_wellFormed (h : Spoilt b) : ¬ WellFormed b :=
  let ⟨i, hi, hspoilt⟩ := h
  fun hwf => hspoilt.2 (hwf i hi)

/-- Something is appended to a block with a terminator. -/
theorem spoilt_append (h : ¬ IsOpen (b.block b.current)) (x : Item I T) : Spoilt (b.append x) := by
  refine ⟨b.current, ?_, ?_⟩
  · rw [size_append]
    exact b.current_lt
  · rw [block_append_current]
    exact isSpoilt_append h (List.cons_ne_nil x [])

/-! ### Progress -/

/-- **A piece of code has been built** between two states, but for the pending blocks. -/
structure Progress (b : Builder I T) (pending : List ℕ) (b' : Builder I T) : Prop where
  size_le : b.size ≤ b'.size
  /-- Of the old blocks, only the current one has changed. -/
  unchanged : ∀ i < b.size, i ≠ b.current → b'.block i = b.block i
  position : b'.current = b.current ∨ b.size ≤ b'.current
  nodup : pending.Nodup
  pending_spec : ∀ i ∈ pending, b.size ≤ i ∧ i < b'.size ∧ i ≠ b'.current ∧ b'.block i = []
  complete : ∀ i < b'.size, b.size ≤ i ∨ i = b.current → i ≠ b'.current → i ∉ pending →
    IsComplete (b'.block i)

namespace Progress

theorem refl (b : Builder I T) : Progress b [] b where
  size_le := le_rfl
  unchanged _ _ _ := rfl
  position := .inl rfl
  nodup := List.nodup_nil
  pending_spec _ hi := absurd hi List.not_mem_nil
  complete _ hi hnew hne _ := absurd (hnew.resolve_left (Nat.not_le.mpr hi)) hne

theorem append (h : Progress b pending b') (x : Item I T) : Progress b pending (b'.append x) where
  size_le := h.size_le.trans (size_append b' x).ge
  unchanged i hi hne := by
    rw [block_append, if_neg, h.unchanged i hi hne]
    rcases h.position with hpos | hpos
    · rwa [hpos]
    · omega
  position := h.position
  nodup := h.nodup
  pending_spec i hi := by
    obtain ⟨hold, hsize, hne, hempty⟩ := h.pending_spec i hi
    rw [size_append, current_append, block_append, if_neg hne]
    exact ⟨hold, hsize, hne, hempty⟩
  complete i hi hnew hne hpending := by
    rw [size_append] at hi
    rw [current_append] at hne
    rw [block_append, if_neg hne]
    exact h.complete i hi hnew hne hpending

/-- New blocks are pending, in the order in which they will be filled. -/
theorem addBlocks (h : Progress b pending b') (n : ℕ) {new : List ℕ} (hnew : new.Nodup)
    (hmem : ∀ i, i ∈ new ↔ b'.size ≤ i ∧ i < b'.size + n) :
    Progress b (new ++ pending) (b'.addBlocks n) where
  size_le := by
    rw [size_addBlocks]
    exact h.size_le.trans (Nat.le_add_right _ _)
  unchanged i hi hne := by
    rw [block_addBlocks]
    exact h.unchanged i hi hne
  position := h.position
  nodup := by
    refine List.nodup_append'.mpr ⟨hnew, h.nodup, fun i hi hpending => ?_⟩
    have hold := (h.pending_spec i hpending).2.1
    have hfresh := ((hmem i).mp hi).1
    omega
  pending_spec i hi := by
    rw [size_addBlocks, current_addBlocks, block_addBlocks]
    rcases List.mem_append.mp hi with hi | hi
    · obtain ⟨hfresh, hlt⟩ := (hmem i).mp hi
      exact ⟨h.size_le.trans hfresh, hlt, (b'.current_lt.trans_le hfresh).ne',
        block_of_size_le hfresh⟩
    · obtain ⟨hold, hlt, hne, hempty⟩ := h.pending_spec i hi
      exact ⟨hold, hlt.trans_le (Nat.le_add_right _ _), hne, hempty⟩
  complete i hi hold hne hpending := by
    rw [size_addBlocks] at hi
    rw [block_addBlocks]
    rw [List.mem_append, not_or, hmem] at hpending
    refine h.complete i ?_ hold hne hpending.2
    by_contra hsize
    exact hpending.1 ⟨Nat.le_of_not_lt hsize, hi⟩

/-- The builder leaves a complete block for the next pending one, which is empty. -/
theorem positionAt (h : Progress b (i :: pending) b') (hc : IsComplete (b'.block b'.current)) :
    Progress b pending (b'.positionAt i) ∧
      (b'.positionAt i).current = i ∧ (b'.positionAt i).block i = [] := by
  obtain ⟨hold, hlt, hne, hempty⟩ := h.pending_spec i List.mem_cons_self
  have hcurrent := current_positionAt hlt
  obtain ⟨hi, hnodup⟩ := List.nodup_cons.mp h.nodup
  refine ⟨?_, hcurrent, by rw [block_positionAt, hempty]⟩
  exact {
    size_le := h.size_le.trans (size_positionAt b' i).ge
    unchanged := fun j hj hne => by
      rw [block_positionAt]
      exact h.unchanged j hj hne
    position := by
      rw [hcurrent]
      exact .inr hold
    nodup := hnodup
    pending_spec := fun j hj => by
      obtain ⟨hold, hlt, -, hempty⟩ := h.pending_spec j (List.mem_cons_of_mem i hj)
      rw [size_positionAt, hcurrent, block_positionAt]
      exact ⟨hold, hlt, fun heq => hi (heq ▸ hj), hempty⟩
    complete := fun j hj hnew hne hpending => by
      rw [size_positionAt] at hj
      rw [hcurrent] at hne
      rw [block_positionAt]
      by_cases hcur : j = b'.current
      · rwa [hcur]
      · refine h.complete j hj hnew hcur fun hmem => ?_
        rcases List.mem_cons.mp hmem with heq | hmem
        · exact hne heq
        · exact hpending hmem }

/-- A piece of code is built in the middle of another one. -/
theorem trans (h : Progress b pending b') (h' : Progress b' [] b'') : Progress b pending b'' where
  size_le := h.size_le.trans h'.size_le
  unchanged i hi hne := by
    rw [h'.unchanged i (hi.trans_le h.size_le), h.unchanged i hi hne]
    rcases h.position with hpos | hpos
    · rwa [hpos]
    · omega
  position := by
    rcases h'.position with hpos | hpos
    · rw [hpos]
      exact h.position
    · exact .inr (h.size_le.trans hpos)
  nodup := h.nodup
  pending_spec i hi := by
    obtain ⟨hold, hlt, hne, hempty⟩ := h.pending_spec i hi
    refine ⟨hold, hlt.trans_le h'.size_le, ?_, (h'.unchanged i hlt hne).trans hempty⟩
    rcases h'.position with hpos | hpos
    · rwa [hpos]
    · omega
  complete i hi hnew hne hpending := by
    by_cases hlt : i < b'.size
    · by_cases hcur : i = b'.current
      · exact h'.complete i hi (.inr hcur) hne List.not_mem_nil
      · rw [h'.unchanged i hlt hcur]
        exact h.complete i hlt hnew hcur hpending
    · exact h'.complete i hi (.inl (Nat.le_of_not_lt hlt)) hne List.not_mem_nil

/-- When everything has been built from the first block on, all blocks are complete. -/
theorem wellFormed (h : Progress entry [] b) (hc : IsComplete (b.block b.current)) :
    WellFormed b := by
  intro i hi
  by_cases hcur : i = b.current
  · rwa [hcur]
  · refine h.complete i hi ?_ hcur List.not_mem_nil
    rcases Nat.eq_zero_or_pos i with hzero | hpos
    · exact .inr hzero
    · exact .inl hpos

end Progress

/-! ### Pieces of code -/

/-- The current block ends, or is still open. -/
def Ends (b : Builder I T) (exits : Bool) : Prop :=
  if exits then IsComplete (b.block b.current) else IsOpen (b.block b.current)

/-- **A piece of code**: what has been built between two states, and whether control leaves
its last block. -/
structure Builds (b : Builder I T) (pending : List ℕ) (exits : Bool) (b' : Builder I T) :
    Prop where
  progress : Progress b pending b'
  ends : Ends b' exits

namespace Builds

variable {exits : Bool}

theorem start (h : IsOpen (b.block b.current)) : Builds b [] false b :=
  ⟨.refl b, h⟩

theorem isOpen (h : Builds b pending false b') : IsOpen (b'.block b'.current) :=
  h.ends

theorem isComplete (h : Builds b pending true b') : IsComplete (b'.block b'.current) :=
  h.ends

theorem not_isOpen (h : Builds b pending true b') : ¬ IsOpen (b'.block b'.current) :=
  h.isComplete.not_isOpen

theorem instr (h : Builds b pending false b') (i : I) :
    Builds b pending false (b'.append (.instr i)) := by
  refine ⟨h.progress.append _, ?_⟩
  show IsOpen ((b'.append _).block b'.current)
  rw [block_append_current]
  exact h.isOpen.instr i

theorem terminator (h : Builds b pending false b') (t : T) :
    Builds b pending true (b'.append (.terminator t)) := by
  refine ⟨h.progress.append _, ?_⟩
  show IsComplete ((b'.append _).block b'.current)
  rw [block_append_current]
  exact h.isOpen.terminator t

/-- New blocks are pending, and the current one is as it was. -/
theorem addBlocks (h : Builds b pending exits b') (n : ℕ) {new : List ℕ} (hnew : new.Nodup)
    (hmem : ∀ i, i ∈ new ↔ b'.size ≤ i ∧ i < b'.size + n) :
    Builds b (new ++ pending) exits (b'.addBlocks n) := by
  refine ⟨h.progress.addBlocks n hnew hmem, ?_⟩
  rw [Ends, block_addBlocks]
  exact h.ends

/-- The next pending block is open. -/
theorem positionAt (h : Builds b (i :: pending) true b') :
    Builds b pending false (b'.positionAt i) := by
  obtain ⟨hprogress, hcurrent, hempty⟩ := h.progress.positionAt h.isComplete
  refine ⟨hprogress, ?_⟩
  show IsOpen ((b'.positionAt i).block (b'.positionAt i).current)
  rw [hcurrent, hempty]
  exact isOpen_nil

theorem trans (h : Builds b pending false b') (h' : Builds b' [] exits b'') :
    Builds b pending exits b'' :=
  ⟨h.progress.trans h'.progress, h'.ends⟩

/-- What `hasTerminator` answers about the last block. -/
theorem hasTerminator_eq (h : Builds b pending exits b') : b'.hasTerminator = exits := by
  cases exits with
  | true => exact hasTerminator_of_isComplete h.isComplete
  | false => exact hasTerminator_of_isOpen h.isOpen

theorem wellFormed (h : Builds entry [] true b) : WellFormed b :=
  h.progress.wellFormed h.isComplete

end Builds

/-! ### Pieces of code that may go wrong -/

/-- **What comes of a piece of code** that starts in an open block: it is built if `ok`, and
spoils a block if not.  In a block that is not open it spoils that one, once something is
`written`. -/
structure Lays (ok written : Bool) (b : Builder I T) (pending : List ℕ) (exits : Bool)
    (b' : Builder I T) : Prop where
  grows : Extends b b'
  result : IsOpen (b.block b.current) → if ok then Builds b pending exits b' else Spoilt b'
  unwritten : written = false →
    b'.current = b.current ∧ b'.block b'.current = b.block b.current
  spoils : written = true → ¬ IsOpen (b.block b.current) → Spoilt b'

namespace Lays

variable {ok ok' written written' exits exits' : Bool} {pending' : List ℕ}

theorem start (b : Builder I T) : Lays true false b [] false b where
  grows := .refl b
  result := .start
  unwritten _ := ⟨rfl, rfl⟩
  spoils h := absurd h Bool.false_ne_true

/-- A step of the builder, when something is written before it. -/
theorem step (h : Lays ok true b pending exits b') (hgrows : Extends b' b'')
    (hbuilds : Builds b pending exits b' → Builds b pending' exits' b'') :
    Lays ok true b pending' exits' b'' where
  grows := h.grows.trans hgrows
  result hopen := by
    have hresult := h.result hopen
    cases ok with
    | true => exact hbuilds hresult
    | false => exact Spoilt.extends hresult hgrows
  unwritten hw := absurd hw.symm Bool.false_ne_true
  spoils hw hopen := (h.spoils hw hopen).extends hgrows

theorem append (h : Lays ok written b pending exits b') (x : Item I T)
    (hbuilds : Builds b pending exits b' → Builds b pending exits' (b'.append x)) :
    Lays ok true b pending exits' (b'.append x) := by
  have hgrows : Extends b' (b'.append x) := (Extends.refl b').append x
  cases written with
  | true => exact h.step hgrows hbuilds
  | false =>
      obtain ⟨-, hblock⟩ := h.unwritten rfl
      refine ⟨h.grows.trans hgrows, fun hopen => ?_, fun hw => absurd hw.symm Bool.false_ne_true,
        fun _ hopen => spoilt_append (by rwa [hblock]) x⟩
      have hresult := h.result hopen
      cases ok with
      | true => exact hbuilds hresult
      | false => exact Spoilt.extends hresult hgrows

theorem instr (h : Lays ok written b pending false b') (i : I) :
    Lays ok true b pending false (b'.append (.instr i)) :=
  h.append _ fun hbuilds => hbuilds.instr i

theorem terminator (h : Lays ok written b pending false b') (t : T) :
    Lays ok true b pending true (b'.append (.terminator t)) :=
  h.append _ fun hbuilds => hbuilds.terminator t

theorem addBlocks (h : Lays ok written b pending exits b') (n : ℕ) {new : List ℕ}
    (hnew : new.Nodup) (hmem : ∀ i, i ∈ new ↔ b'.size ≤ i ∧ i < b'.size + n) :
    Lays ok written b (new ++ pending) exits (b'.addBlocks n) where
  grows := h.grows.addBlocks n
  result hopen := by
    have hresult := h.result hopen
    cases ok with
    | true => exact Builds.addBlocks hresult n hnew hmem
    | false => exact Spoilt.extends hresult ((Extends.refl b').addBlocks n)
  unwritten hw := by
    rw [current_addBlocks, block_addBlocks]
    exact h.unwritten hw
  spoils hw hopen := (h.spoils hw hopen).extends ((Extends.refl b').addBlocks n)

/-- The next pending block is open. -/
theorem positionAt (h : Lays ok true b (i :: pending) true b') :
    Lays ok true b pending false (b'.positionAt i) :=
  h.step ((Extends.refl b').positionAt i) fun hbuilds => hbuilds.positionAt

/-- One piece of code after another. -/
theorem trans (h : Lays ok true b pending false b') (h' : Lays ok' written' b' [] exits b'') :
    Lays (ok && ok') true b pending exits b'' where
  grows := h.grows.trans h'.grows
  result hopen := by
    have hresult := h.result hopen
    cases ok with
    | false => exact Spoilt.extends hresult h'.grows
    | true =>
        have hbuilds : Builds b pending false b' := hresult
        have hresult' := h'.result hbuilds.isOpen
        cases ok' with
        | true => exact hbuilds.trans hresult'
        | false => exact hresult'
  unwritten hw := absurd hw.symm Bool.false_ne_true
  spoils hw hopen := (h.spoils hw hopen).extends h'.grows

/-- What is written where control has left spoils the block. -/
theorem trans_exit (h : Lays ok true b pending true b') (h' : Lays ok' true b' [] exits b'') :
    Lays false true b pending exits' b'' where
  grows := h.grows.trans h'.grows
  result hopen := by
    have hresult := h.result hopen
    cases ok with
    | false => exact Spoilt.extends hresult h'.grows
    | true => exact h'.spoils rfl (Builds.not_isOpen hresult)
  unwritten hw := absurd hw.symm Bool.false_ne_true
  spoils hw hopen := (h.spoils hw hopen).extends h'.grows

/-- When a function has been built from its first block on, all blocks are complete unless
one is spoilt. -/
theorem wellFormed_iff (h : Lays ok written entry [] true b) : WellFormed b ↔ ok = true := by
  have hresult := h.result isOpen_nil
  cases ok with
  | true => exact ⟨fun _ => rfl, fun _ => Builds.wellFormed hresult⟩
  | false =>
      exact ⟨fun hwf => absurd hwf (Spoilt.not_wellFormed hresult),
        fun h => absurd h Bool.false_ne_true⟩

end Lays

end Builder

end BasicBlocks

end BreadLang
