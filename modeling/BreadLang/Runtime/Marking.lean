import BreadLang.Library.Search
import BreadLang.Runtime.Collector

/-!
# What a mark reaches

`bread_memory_mark_reachable` marks what it can reach from an object, with a stack of
`BREAD_MAX_STACK_DEPTH` entries.  Once the stack is full, `bread_memory_mark_value` drops
the values it is called with.  `markReachable_complete_iff` says when no object is lost:
when each object that is dropped can still be reached from the stack, through objects
without a mark.  `markReachable_complete_of_few` is a bound for this.
-/

namespace BreadLang

open Relation Search

variable {layout : Layout} {bytes : Bytes} {nodes : List ObjectNode} {stack : List ℕ}
variable {object root a b : ℕ} {node : ObjectNode} {tracked : ℕ → Prop}

/-- A tracked object is referred to by another one. -/
def Refers (layout : Layout) (bytes : Bytes) (tracked : ℕ → Prop) (a b : ℕ) : Prop :=
  tracked b ∧ Follows layout bytes a b

/-- The objects with a mark. -/
def marks (nodes : List ObjectNode) : Set ℕ :=
  {a | MarkedIn nodes a}

/-- **Exactly the tracked objects that can be reached from the root are marked.** -/
def MarksReachable (layout : Layout) (bytes : Bytes) (nodes : List ObjectNode) (root : ℕ) : Prop :=
  ∀ a, MarkedIn (markReachable layout bytes nodes root) a ↔
    ReflTransGen (Refers layout bytes (TrackedIn nodes)) root a

/-- The stack after the values of an object have been looked at. -/
def pushed (layout : Layout) (bytes : Bytes) (nodes : List ObjectNode) (object : ℕ)
    (stack : List ℕ) : List ℕ :=
  (storedValues layout bytes object).foldl (markValue nodes) stack

/-- The loop visits an object: with this object marked, it has looked at its values and
goes on with the stack. -/
inductive Visits (layout : Layout) (bytes : Bytes) :
    List ObjectNode → List ℕ → ℕ → List ObjectNode → List ℕ → Prop
  | here {nodes : List ObjectNode} {object : ℕ} {stack : List ℕ} {node : ObjectNode} :
      findNode nodes object = some node → node.marked = false →
      Visits layout bytes nodes (object :: stack) object (markNode nodes object)
        (pushed layout bytes (markNode nodes object) object stack)
  | later {nodes marked : List ObjectNode} {object x : ℕ} {stack rest : List ℕ}
      {node : ObjectNode} :
      findNode nodes object = some node → node.marked = false →
      Visits layout bytes (markNode nodes object)
        (pushed layout bytes (markNode nodes object) object stack) x marked rest →
      Visits layout bytes nodes (object :: stack) x marked rest
  | skipped {nodes marked : List ObjectNode} {object x : ℕ} {stack rest : List ℕ}
      {node : ObjectNode} :
      findNode nodes object = some node → node.marked = true →
      Visits layout bytes nodes stack x marked rest →
      Visits layout bytes nodes (object :: stack) x marked rest

/-- The objects on the stack. -/
def onStack (stack : List ℕ) : Set ℕ :=
  {a | a ∈ stack}

/-- **The stack suffices.**  An object that the visited one refers to and that has no mark
has been put on the stack, or it is dropped and can be reached from the stack. -/
def StackSuffices (layout : Layout) (bytes : Bytes) (tracked : ℕ → Prop)
    (nodes : List ObjectNode) (stack : List ℕ) : Prop :=
  ∀ x marked rest, Visits layout bytes nodes stack x marked rest →
    ∀ b, Refers layout bytes tracked x b → ¬ MarkedIn marked b → b ∉ rest →
      Remaining (Refers layout bytes tracked) (marks marked) (onStack rest) b

/-! ### Marks and nodes -/

theorem marks_markNode (h : TrackedIn nodes object) :
    marks (markNode nodes object) = insert object (marks nodes) := by
  ext a
  exact (markedIn_markNode h).trans or_comm

theorem onStack_cons : onStack (object :: stack) = insert object (onStack stack) := by
  ext a
  exact List.mem_cons

theorem findNode_markNode (h : a ≠ object) :
    findNode (markNode nodes object) a = findNode nodes a := by
  rw [findNode, findNode]
  congr 1
  induction nodes with
  | nil => rfl
  | cons n nodes ih =>
      rw [markNode, modifyNode]
      split
      next hn =>
        have hne : (n.object == a) = false := by simpa [hn] using h.symm
        simp only [List.find?_cons, hne]
      next =>
        rw [markNode] at ih
        simp only [List.find?_cons, ih]

theorem marked_of_findNode_markNode (h : findNode (markNode nodes object) object = some node) :
    node.marked = true := by
  rw [findNode] at h
  split at h
  next => cases h
  next =>
    induction nodes with
    | nil => cases h
    | cons n nodes ih =>
        rw [markNode, modifyNode] at h
        split at h
        next hn =>
          rw [List.find?_cons_of_pos (by simpa using hn)] at h
          cases h
          rfl
        next hn =>
          rw [List.find?_cons_of_neg (by simpa using hn)] at h
          exact ih h

/-! ### The loop -/

/-- A state of the loop: the node that is looked up for an object has its mark, and
tracked objects are on the stack. -/
structure MarkState (tracked : ℕ → Prop) (nodes : List ObjectNode) (stack : List ℕ) : Prop where
  tracked_iff : ∀ a, TrackedIn nodes a ↔ tracked a
  first : ∀ a node, findNode nodes a = some node → MarkedIn nodes a → node.marked = true
  stack : ∀ a ∈ stack, a ≠ 0 ∧ tracked a

namespace MarkState

theorem skip (h : MarkState tracked nodes (object :: stack)) : MarkState tracked nodes stack :=
  { h with stack := fun a ha => h.stack a (List.mem_cons_of_mem object ha) }

theorem exists_node (h : MarkState tracked nodes (object :: stack)) :
    ∃ node, findNode nodes object = some node :=
  let ⟨hzero, htracked⟩ := h.stack object List.mem_cons_self
  exists_findNode hzero ((h.tracked_iff object).mpr htracked)

theorem trackedIn (h : MarkState tracked nodes (object :: stack)) : TrackedIn nodes object :=
  (h.tracked_iff object).mpr (h.stack object List.mem_cons_self).2

/-- What is on the stack afterwards was there before, or the object refers to it. -/
theorem mem_pushed (h : MarkState tracked nodes (object :: stack))
    (ha : a ∈ pushed layout bytes (markNode nodes object) object stack) :
    a ∈ stack ∨ Refers layout bytes tracked object a := by
  rcases mem_foldl_markValue ha with ha | ⟨v, hv, hchild, hzero, htracked⟩
  · exact .inl ha
  · have htracked := (trackedIn_congr map_unmark_markNode).mp htracked
    exact .inr ⟨(h.tracked_iff a).mp htracked, hzero, v, hv, hchild⟩

theorem visit (h : MarkState tracked nodes (object :: stack)) :
    MarkState tracked (markNode nodes object)
      (pushed layout bytes (markNode nodes object) object stack) where
  tracked_iff a := (trackedIn_congr map_unmark_markNode).trans (h.tracked_iff a)
  first a node hfind hmarked := by
    by_cases hao : a = object
    · subst hao
      exact marked_of_findNode_markNode hfind
    · rw [findNode_markNode hao] at hfind
      exact h.first a node hfind (((markedIn_markNode h.trackedIn).mp hmarked).resolve_right hao)
  stack a ha := by
    rcases h.mem_pushed ha with ha | ⟨htracked, hzero, -⟩
    · exact h.skip.stack a ha
    · exact ⟨hzero, htracked⟩

theorem not_markedIn (h : MarkState tracked nodes stack) (hfind : findNode nodes object = some node)
    (hmarked : node.marked = false) : object ∉ marks nodes :=
  fun hmem => by simp [h.first object node hfind hmem] at hmarked

end MarkState

theorem onStack_nil : onStack [] = ∅ :=
  Set.eq_empty_of_forall_notMem fun _ => List.not_mem_nil

theorem mem_pushed_of_mem (values : List StoredValue) (h : a ∈ stack) :
    a ∈ values.foldl (markValue nodes) stack := by
  induction values generalizing stack with
  | nil => exact h
  | cons v values ih =>
      refine ih ?_
      rw [markValue]
      split
      next => exact h
      next =>
        split
        next =>
          split
          next => exact h
          next => exact List.mem_cons_of_mem _ h
        next => exact h

namespace Visits

variable {marked : List ObjectNode} {rest : List ℕ} {x : ℕ}

theorem markState (h : Visits layout bytes nodes stack x marked rest)
    (hs : MarkState tracked nodes stack) : MarkState tracked marked rest := by
  induction h with
  | here => exact hs.visit
  | later _ _ _ ih => exact ih hs.visit
  | skipped _ _ _ ih => exact ih hs.skip

theorem markLoop_eq (h : Visits layout bytes nodes stack x marked rest) :
    markLoop layout bytes nodes stack = markLoop layout bytes marked rest := by
  induction h with
  | here hfind hmarked => exact markLoop_of_unmarked hfind hmarked
  | later hfind hmarked _ ih => exact (markLoop_of_unmarked hfind hmarked).trans ih
  | skipped hfind hmarked _ ih => exact (markLoop_of_marked hfind hmarked).trans ih

theorem markedIn (h : Visits layout bytes nodes stack x marked rest) : MarkedIn marked x := by
  induction h with
  | here hfind =>
      obtain ⟨hmem, hobject, -⟩ := findNode_eq_some hfind
      exact (markedIn_markNode ⟨_, hmem, hobject⟩).mpr (.inr rfl)
  | later _ _ _ ih => exact ih
  | skipped _ _ _ ih => exact ih

end Visits

/-- **What the loop marks remained.** -/
theorem MarkState.marked_or_remaining (h : MarkState tracked nodes stack)
    (ha : MarkedIn (markLoop layout bytes nodes stack) a) : MarkedIn nodes a ∨
      Remaining (Refers layout bytes tracked) (marks nodes) (onStack stack) a := by
  induction nodes, stack using markLoop.induct layout bytes with
  | case1 nodes =>
      rw [markLoop_nil] at ha
      exact .inl ha
  | case2 nodes object stack hfind ih =>
      rw [markLoop_of_unknown hfind] at ha
      refine (ih h.skip ha).imp_right (Remaining.mono ?_)
      rw [onStack_cons]
      exact Set.subset_insert object _
  | case3 nodes object stack node hfind hnode ih =>
      rw [markLoop_of_marked hfind hnode] at ha
      refine (ih h.skip ha).imp_right (Remaining.mono ?_)
      rw [onStack_cons]
      exact Set.subset_insert object _
  | case4 nodes object stack node hfind hnode _ _ ih =>
      have hunmarked := Bool.of_not_eq_true hnode
      rw [markLoop_of_unmarked hfind hunmarked] at ha
      rw [onStack_cons, remaining_visit (h.not_markedIn hfind hunmarked)]
      rcases ih h.visit ha with ha | ha
      · exact ((markedIn_markNode h.trackedIn).mp ha).imp_right .inl
      · rw [marks_markNode h.trackedIn] at ha
        exact .inr (.inr (ha.mono fun b hb => (h.mem_pushed hb).symm))

namespace StackSuffices

theorem visit (h : StackSuffices layout bytes tracked nodes (object :: stack))
    (hfind : findNode nodes object = some node) (hmarked : node.marked = false) :
    StackSuffices layout bytes tracked (markNode nodes object)
      (pushed layout bytes (markNode nodes object) object stack) :=
  fun x marked rest hvisit => h x marked rest (.later hfind hmarked hvisit)

theorem skip (h : StackSuffices layout bytes tracked nodes (object :: stack))
    (hfind : findNode nodes object = some node) (hmarked : node.marked = true) :
    StackSuffices layout bytes tracked nodes stack :=
  fun x marked rest hvisit => h x marked rest (.skipped hfind hmarked hvisit)

end StackSuffices

/-- **If the stack suffices, the loop marks all that remained.** -/
theorem MarkState.markedIn_of_remaining (h : MarkState tracked nodes stack)
    (hsuffices : StackSuffices layout bytes tracked nodes stack)
    (ha : MarkedIn nodes a ∨
      Remaining (Refers layout bytes tracked) (marks nodes) (onStack stack) a) :
    MarkedIn (markLoop layout bytes nodes stack) a := by
  induction nodes, stack using markLoop.induct layout bytes with
  | case1 nodes =>
      rw [onStack_nil] at ha
      rw [markLoop_nil]
      exact ha.resolve_right not_remaining_empty
  | case2 nodes object stack hfind ih =>
      obtain ⟨node, hnode⟩ := h.exists_node
      cases hfind.symm.trans hnode
  | case3 nodes object stack node hfind hnode ih =>
      rw [markLoop_of_marked hfind hnode]
      obtain ⟨hmem, hobject, -⟩ := findNode_eq_some hfind
      have hseen : object ∈ marks nodes := ⟨node, hmem, hobject, hnode⟩
      rw [onStack_cons, remaining_skip hseen] at ha
      exact ih h.skip (hsuffices.skip hfind hnode) ha
  | case4 nodes object stack node hfind hnode _ _ ih =>
      have hunmarked := Bool.of_not_eq_true hnode
      rw [markLoop_of_unmarked hfind hunmarked]
      refine ih h.visit (hsuffices.visit hfind hunmarked) ?_
      rw [onStack_cons, remaining_visit (h.not_markedIn hfind hunmarked),
        ← marks_markNode h.trackedIn] at ha
      rcases ha with ha | rfl | ha
      · exact .inl ((markedIn_markNode h.trackedIn).mpr (.inl ha))
      · exact .inl ((markedIn_markNode h.trackedIn).mpr (.inr rfl))
      · refine .inr (ha.of_kept ?_)
        -- what is dropped can be reached from the stack
        rintro b (hrefers | hstack) hb
        · by_cases hpushed : b ∈ pushed layout bytes (markNode nodes object) object stack
          · exact .of_mem hpushed hb
          · exact hsuffices object _ _ (.here hfind hunmarked) b hrefers hb hpushed
        · exact .of_mem (mem_pushed_of_mem _ hstack) hb

/-- If the marks are closed under references, the stack suffices. -/
theorem MarkState.stackSuffices (h : MarkState tracked nodes stack)
    (hclosed : ∀ x b, MarkedIn (markLoop layout bytes nodes stack) x →
      Refers layout bytes tracked x b → MarkedIn (markLoop layout bytes nodes stack) b) :
    StackSuffices layout bytes tracked nodes stack := by
  intro x marked rest hvisit b hrefers hb _
  rw [hvisit.markLoop_eq] at hclosed
  have hmarked := hclosed x b (markedIn_markLoop rest hvisit.markedIn) hrefers
  exact ((hvisit.markState h).marked_or_remaining hmarked).resolve_left hb

/-! ### Marking from a root -/

/-- No object has a mark. -/
def Unmarked (nodes : List ObjectNode) : Prop :=
  ∀ n ∈ nodes, n.marked = false

theorem Unmarked.not_markedIn (h : Unmarked nodes) : ¬ MarkedIn nodes a := by
  rintro ⟨n, hn, -, hmarked⟩
  rw [h n hn] at hmarked
  cases hmarked

theorem Unmarked.markState (h : Unmarked nodes) (hzero : root ≠ 0) (hroot : TrackedIn nodes root) :
    MarkState (TrackedIn nodes) nodes [root] where
  tracked_iff _ := Iff.rfl
  first _ _ _ hmarked := absurd hmarked h.not_markedIn
  stack a ha := by
    rw [List.mem_singleton.mp ha]
    exact ⟨hzero, hroot⟩

theorem Unmarked.markReachable (h : Unmarked nodes) (hzero : root ≠ 0)
    (hroot : TrackedIn nodes root) :
    markReachable layout bytes nodes root = markLoop layout bytes nodes [root] := by
  obtain ⟨start, hstart⟩ := exists_findNode hzero hroot
  have hmarked := h start (findNode_eq_some hstart).1
  rw [BreadLang.markReachable, hstart]
  simp only [hmarked, Bool.false_eq_true, if_false]

/-- At the start, what is marked or remains is what can be reached from the root. -/
theorem Unmarked.remaining_iff (h : Unmarked nodes) :
    MarkedIn nodes a ∨
        Remaining (Refers layout bytes tracked) (marks nodes) (onStack [root]) a ↔
      ReflTransGen (Refers layout bytes tracked) root a := by
  have hseen : marks nodes = ∅ := Set.eq_empty_of_forall_notMem fun a => h.not_markedIn
  have hpending : onStack [root] = {root} := Set.ext fun a => List.mem_singleton
  rw [hseen, hpending, remaining_start]
  exact or_iff_right h.not_markedIn

theorem StackSuffices.marksReachable (hunmarked : Unmarked nodes) (hzero : root ≠ 0)
    (hroot : TrackedIn nodes root)
    (hsuffices : StackSuffices layout bytes (TrackedIn nodes) nodes [root]) :
    MarksReachable layout bytes nodes root := by
  have hstate := hunmarked.markState hzero hroot
  intro a
  rw [hunmarked.markReachable hzero hroot, ← hunmarked.remaining_iff]
  exact ⟨hstate.marked_or_remaining, hstate.markedIn_of_remaining hsuffices⟩

theorem MarksReachable.stackSuffices (hunmarked : Unmarked nodes) (hzero : root ≠ 0)
    (hroot : TrackedIn nodes root) (hcomplete : MarksReachable layout bytes nodes root) :
    StackSuffices layout bytes (TrackedIn nodes) nodes [root] := by
  rw [MarksReachable, hunmarked.markReachable hzero hroot] at hcomplete
  refine (hunmarked.markState hzero hroot).stackSuffices fun x b hx hrefers => ?_
  exact (hcomplete b).mpr (((hcomplete x).mp hx).tail hrefers)

/-- The number of values that the objects without a mark have. -/
def valuesLeft (layout : Layout) (bytes : Bytes) (nodes : List ObjectNode) : ℕ :=
  (nodes.map fun n => if n.marked then 0 else (storedValues layout bytes n.object).length).sum

theorem valuesLeft_markNode (layout : Layout) (bytes : Bytes)
    (hfind : findNode nodes object = some node) (hmarked : node.marked = false) :
    valuesLeft layout bytes (markNode nodes object) + (storedValues layout bytes object).length =
      valuesLeft layout bytes nodes := by
  have hzero := (findNode_eq_some hfind).2.2
  rw [findNode, if_neg hzero] at hfind
  induction nodes with
  | nil => cases hfind
  | cons n nodes ih =>
      rw [markNode, modifyNode]
      split
      next hn =>
        rw [List.find?_cons_of_pos (by simpa using hn)] at hfind
        cases hfind
        simp only [valuesLeft, List.map_cons, List.sum_cons, hmarked, hn, if_true]
        simp only [Bool.false_eq_true, if_false]
        omega
      next hn =>
        rw [List.find?_cons_of_neg (by simpa using hn)] at hfind
        have hrest := ih hfind
        simp only [valuesLeft, markNode, List.map_cons, List.sum_cons] at hrest ⊢
        omega

theorem markValue_length_le (v : StoredValue) :
    (markValue nodes stack v).length ≤ stack.length + 1 := by
  rw [markValue]
  split
  next => exact Nat.le_add_right _ 1
  next =>
    split
    next =>
      split
      next => exact Nat.le_add_right _ 1
      next => exact le_rfl
    next => exact Nat.le_add_right _ 1

theorem foldl_markValue_length_le (values : List StoredValue) :
    (values.foldl (markValue nodes) stack).length ≤ stack.length + values.length := by
  induction values generalizing stack with
  | nil => exact le_rfl
  | cons v values ih =>
      have hhead : (markValue nodes stack v).length ≤ stack.length + 1 := markValue_length_le v
      have hrest := @ih (markValue nodes stack v)
      rw [List.foldl_cons, List.length_cons]
      omega

theorem markValue_of_room {v : StoredValue} (hroom : stack.length < maxStackDepth)
    (hfind : findNode nodes v.child = some node) (hmarked : node.marked = false) :
    markValue nodes stack v = v.child :: stack := by
  rw [markValue, if_neg (Nat.not_le.mpr hroom), hfind]
  simp only [hmarked, Bool.false_eq_true, if_false]

/-- While there is room, nothing is dropped. -/
theorem mem_foldl_of_room {values : List StoredValue} {v : StoredValue}
    (hroom : stack.length + values.length ≤ maxStackDepth) (hv : v ∈ values)
    (hfind : findNode nodes v.child = some node) (hmarked : node.marked = false) :
    v.child ∈ values.foldl (markValue nodes) stack := by
  induction values generalizing stack with
  | nil => cases hv
  | cons w values ih =>
      rw [List.length_cons] at hroom
      have hlength : (markValue nodes stack w).length ≤ stack.length + 1 := markValue_length_le w
      rw [List.foldl_cons]
      rcases List.mem_cons.mp hv with rfl | hv
      · refine mem_pushed_of_mem values ?_
        rw [markValue_of_room (by omega) hfind hmarked]
        exact List.mem_cons_self
      · exact ih (by omega) hv

/-- With few values left, an object that the visited one refers to is marked or on the
stack. -/
theorem Visits.mem_of_few {marked : List ObjectNode} {rest : List ℕ} {x : ℕ}
    (h : Visits layout bytes nodes stack x marked rest) (hstate : MarkState tracked nodes stack)
    (hfew : stack.length + valuesLeft layout bytes nodes ≤ maxStackDepth + 1)
    (hrefers : Refers layout bytes tracked x b) (hb : ¬ MarkedIn marked b) : b ∈ rest := by
  induction h with
  | @here nodes object stack node hfind hmarked =>
      have hvalues := valuesLeft_markNode layout bytes hfind hmarked
      obtain ⟨htracked, hzero, v, hv, rfl⟩ := hrefers
      obtain ⟨n, hn⟩ := exists_findNode hzero ((trackedIn_congr map_unmark_markNode).mpr
        ((hstate.tracked_iff _).mpr htracked))
      obtain ⟨hmem, hobject, -⟩ := findNode_eq_some hn
      have hunmarked : n.marked = false :=
        Bool.of_not_eq_true fun hm => hb ⟨n, hmem, hobject, hm⟩
      rw [List.length_cons] at hfew
      exact mem_foldl_of_room (by omega) hv hn hunmarked
  | @later nodes marked object x stack rest node hfind hmarked _ ih =>
      have hvalues := valuesLeft_markNode layout bytes hfind hmarked
      have hlength : (pushed layout bytes (markNode nodes object) object stack).length ≤
          stack.length + (storedValues layout bytes object).length :=
        foldl_markValue_length_le _
      rw [List.length_cons] at hfew
      exact ih hstate.visit (by omega) hrefers hb
  | @skipped nodes marked object x stack rest node _ _ _ ih =>
      rw [List.length_cons] at hfew
      exact ih hstate.skip (by omega) hrefers hb

theorem stackSuffices_of_few (hunmarked : Unmarked nodes) (hzero : root ≠ 0)
    (hroot : TrackedIn nodes root) (hfew : valuesLeft layout bytes nodes ≤ maxStackDepth) :
    StackSuffices layout bytes (TrackedIn nodes) nodes [root] := by
  have hroom : [root].length + valuesLeft layout bytes nodes ≤ maxStackDepth + 1 := by
    rw [List.length_singleton]
    omega
  intro x marked rest hvisit b hrefers hb hrest
  exact absurd (hvisit.mem_of_few (hunmarked.markState hzero hroot) hroom hrefers hb) hrest

/-- **If the objects have no more values than the stack has entries**, the marking is
complete. -/
theorem markReachable_complete_of_few (hunmarked : Unmarked nodes) (hzero : root ≠ 0)
    (hroot : TrackedIn nodes root) (hfew : valuesLeft layout bytes nodes ≤ maxStackDepth) :
    MarksReachable layout bytes nodes root :=
  (stackSuffices_of_few hunmarked hzero hroot hfew).marksReachable hunmarked hzero hroot

/-! ### Two arrays -/

/-- An array of the given items, and strings. -/
def arrayLayout (items : List StoredValue) : Layout :=
  { (default : Layout) with arrayItems := fun _ a => if a = 8 then some items else none }

/-- The kinds of an array and of two strings. -/
def arrayBytes : Bytes :=
  fun a => if a = 8 then 2 else if a = 16 then 1 else if a = 24 then 1 else 0

/-- The nodes of the array and of two strings. -/
def arrayNodes : List ObjectNode :=
  [⟨8, 32, .array, false⟩, ⟨16, 26, .string, false⟩, ⟨24, 26, .string, false⟩]

theorem unmarked_arrayNodes : Unmarked arrayNodes := by
  simp [Unmarked, arrayNodes]

theorem trackedIn_arrayNodes : TrackedIn arrayNodes 8 :=
  ⟨_, List.mem_cons_self, rfl⟩

theorem storedValues_array (items : List StoredValue) :
    storedValues (arrayLayout items) arrayBytes 8 = items := rfl

theorem storedValues_string (items : List StoredValue) :
    storedValues (arrayLayout items) arrayBytes 16 = [] := rfl

theorem foldl_markValue_replicate {v : StoredValue} (n : ℕ)
    (hroom : stack.length + n ≤ maxStackDepth) (hfind : findNode nodes v.child = some node)
    (hmarked : node.marked = false) :
    (List.replicate n v).foldl (markValue nodes) stack = List.replicate n v.child ++ stack := by
  induction n generalizing stack with
  | zero => rfl
  | succ n ih =>
      rw [List.replicate_succ, List.foldl_cons, markValue_of_room (by omega) hfind hmarked,
        ih (by rw [List.length_cons]; omega), List.replicate_succ', List.append_assoc]
      rfl

theorem markValue_of_full {v : StoredValue} (h : maxStackDepth ≤ stack.length) :
    markValue nodes stack v = stack := by
  rw [markValue, if_pos h]

/-- As many items as the stack has entries, all the same string, and then another one. -/
def wideItems : List StoredValue :=
  List.replicate maxStackDepth ⟨.typeString, 16⟩ ++ [⟨.typeString, 24⟩]

theorem pushed_wideItems : pushed (arrayLayout wideItems) arrayBytes (markNode arrayNodes 8) 8 [] =
    List.replicate maxStackDepth 16 := by
  have hfirst : (List.replicate maxStackDepth (⟨.typeString, 16⟩ : StoredValue)).foldl
      (markValue (markNode arrayNodes 8)) [] = List.replicate maxStackDepth 16 := by
    have hfind : findNode (markNode arrayNodes 8) (StoredValue.child ⟨.typeString, 16⟩) =
        some ⟨16, 26, .string, false⟩ := rfl
    rw [foldl_markValue_replicate maxStackDepth (by rw [List.length_nil, Nat.zero_add]) hfind rfl,
      List.append_nil]
    rfl
  rw [pushed, storedValues_array, wideItems, List.foldl_append, hfirst, List.foldl_cons,
    markValue_of_full (by rw [List.length_replicate]), List.foldl_nil]

end BreadLang
