import BreadLang.Runtime.ReferencesConserved

/-!
# Interned strings

A program that only asks for string literals, releases what it holds and empties the table of
interned strings.  The table has one entry for each hash; a literal that is not in it takes the
place of the entry with its hash, whose owners keep their references.

## Main results

* `interning_transparent`: in every run the count of a string is the number of the references
  that owners hold, and one more if it is in the table; and a call returns a string with the
  bytes it is given, unless that string has as many references as can be counted.
-/

namespace BreadLang

open RefCount

/-- The calls that concern interned strings, and the release of a reference. -/
def ObjectOp.concernsLiterals : ObjectOp → Bool
  | .stringNewLiteral _ | .release _ | .stringInternCleanup => true
  | _ => false

namespace ObjectState

/-! ### States of such programs -/

/-- **A state of such a program**: all objects are strings, and an entry of the table is a live
string with the hash of its place. -/
structure Interning (s : ObjectState) : Prop where
  accounted : s.Accounted []
  strings : ∀ r b, s.heap.body r = some b → b.IsString
  held : ∀ v ∈ s.held, ∃ r, v = .string (some r)
  entries : ∀ (i : ℕ) (r : Ref), s.interned[i]? = some (some r) →
    ∃ data, s.heap.body r = some (.string data) ∧ stringHash data = i

variable {s s' : ObjectState} {r : Ref}

theorem mem_internedRefs : r ∈ s.internedRefs ↔ ∃ i : ℕ, s.interned[i]? = some (some r) := by
  rw [internedRefs, List.mem_flatMap]
  simp only [Option.mem_toList, exists_eq_right]
  exact List.mem_iff_getElem?

theorem count_valueRefs_of_strings : ∀ (vs : List HeapValue),
    (∀ v ∈ vs, ∃ r, v = .string (some r)) → ∀ r : Ref,
      (valueRefs vs).count r = vs.count (.string (some r)) := by
  intro vs hvs r
  induction vs with
  | nil => rfl
  | cons v vs ih =>
      obtain ⟨⟨x, rfl⟩, hrest⟩ := List.forall_mem_cons.mp hvs
      rw [valueRefs_cons, List.count_append, ih hrest, List.count_cons, Nat.add_comm]
      congr 1
      show [x].count r = _
      rw [List.count_singleton]
      simp

theorem step_of_literal {cstr : BreadString} (hcall : s.stringNewLiteral cstr = .ok (r, s')) :
    s.step (.stringNewLiteral cstr) = .ok ({ s' with held := .string (some r) :: s'.held },
      [.string (some r)]) := by
  rw [ObjectState.step, hcall]
  rfl

/-- Strings hold no references. -/
theorem incoming_eq_zero_of_strings {h : ObjectHeap}
    (hstrings : ∀ r b, h.body r = some b → b.IsString) (r : Ref) :
    h.incoming ObjectBody.children r = 0 := by
  by_contra hne
  obtain ⟨x, b, hb, hmem⟩ := exists_of_incoming_pos (Nat.pos_of_ne_zero hne)
  have hstring := hstrings x b hb
  cases b with
  | string data => exact List.not_mem_nil hmem
  | _ => exact hstring

namespace Interning

theorem init (definitions : List ClassDefinition) : (init definitions).Interning where
  accounted := accounted_init definitions
  strings _ _ hb := by cases hb
  held _ hv := absurd hv List.not_mem_nil
  entries i r hi := by
    have hmem := List.mem_of_getElem? hi
    rw [ObjectState.init, List.mem_replicate] at hmem
    cases hmem.2

theorem live_of_owed (hs : s.Interning) (hr : r ∈ valueRefs s.held ++ s.internedRefs) :
    s.heap.count r ≠ 0 :=
  hs.accounted.balanced.ledger.count_ne_zero (Nat.ne_of_gt (List.count_pos_iff.mpr hr))

theorem live_of_mem (hs : s.Interning) (hr : r ∈ s.internedRefs) : s.heap.count r ≠ 0 :=
  hs.live_of_owed (List.mem_append_right _ hr)

/-- A string is in the table once. -/
theorem count_internedRefs (hs : s.Interning) (r : Ref) :
    s.internedRefs.count r = if r ∈ s.internedRefs then 1 else 0 := by
  refine List.Nodup.count (List.nodup_flatMap.mpr ⟨fun o _ => ?_, ?_⟩)
  · cases o <;> simp
  · rw [List.pairwise_iff_getElem]
    intro i j hi hj hlt x hx hx'
    have hget : s.interned[i]? = some (some x) := by
      rw [List.getElem?_eq_getElem hi, Option.mem_toList.mp hx]
    have hget' : s.interned[j]? = some (some x) := by
      rw [List.getElem?_eq_getElem hj, Option.mem_toList.mp hx']
    -- one string has one hash
    obtain ⟨data, hbody, hhash⟩ := hs.entries i x hget
    obtain ⟨data', hbody', hhash'⟩ := hs.entries j x hget'
    rw [hbody] at hbody'
    cases hbody'
    exact absurd (hhash.symm.trans hhash') hlt.ne

theorem count_valueRefs (hs : s.Interning) (r : Ref) :
    (valueRefs s.held).count r = s.held.count (.string (some r)) :=
  count_valueRefs_of_strings s.held hs.held r

/-- **The count of a string.** -/
theorem counted (hs : s.Interning) (r : Ref) : s.heap.count r =
    s.held.count (.string (some r)) + if r ∈ s.internedRefs then 1 else 0 := by
  rw [hs.accounted.balanced.ledger.counted, incoming_eq_zero_of_strings hs.strings, Nat.add_zero, List.nil_append,
    List.count_append, hs.count_valueRefs, hs.count_internedRefs]

/-- After some objects have gone from a heap of strings. -/
theorem of_heap {h : ObjectHeap} (haccounted : s.Accounted [])
    (hstrings : ∀ r b, h.body r = some b → b.IsString)
    (hbody : ∀ x, s.heap.body x = h.body x ∨ s.heap.body x = none)
    (hheld : ∀ v ∈ s.held, ∃ r, v = .string (some r))
    (hentries : ∀ (i : ℕ) (r : Ref), s.interned[i]? = some (some r) →
      ∃ data, h.body r = some (.string data) ∧ stringHash data = i) : s.Interning where
  accounted := haccounted
  strings x b hb := by
    rcases hbody x with heq | hnone
    · exact hstrings x b (heq ▸ hb)
    · rw [hnone] at hb
      cases hb
  held := hheld
  entries i r hi := by
    obtain ⟨data, hdata, hhash⟩ := hentries i r hi
    refine ⟨data, ?_, hhash⟩
    have hcount : s.heap.count r ≠ 0 := by
      refine haccounted.balanced.ledger.count_ne_zero (Nat.ne_of_gt (List.count_pos_iff.mpr ?_))
      exact List.mem_append_right _ (List.mem_append_right _ (mem_internedRefs.mpr ⟨i, hi⟩))
    rcases hbody r with heq | hnone
    · rw [heq, hdata]
    · exact absurd ((haccounted.balanced.ledger.body_iff r).mp hnone) hcount

/-! ### Steps -/

/-- A literal that is in the table. -/
theorem stringNewLiteral_hit (hs : s.Interning) {cstr : BreadString}
    (hslot : s.interned[stringHash (cString cstr)]? = some (some r))
    (hbody : s.heap.body r = some (.string (cString cstr))) :
    s.stringNewLiteral cstr =
      if s.heap.count r = 0xFFFFFFFF then .error (.abort ObjectHeap.refcountOverflow)
      else .ok (r, { s with heap := s.heap.retain r }) := by
  have husable := hs.accounted.balanced.ledger.usable
    (hs.live_of_mem (mem_internedRefs.mpr ⟨_, hslot⟩))
  have hholds : s.holdsLiteral (some r) (cString cstr) = .ok true := by
    rw [holdsLiteral, ObjectHeap.stringAt, hbody]
    exact congrArg Except.ok (beq_self_eq_true (cString cstr))
  have hretain : s.heap.objectRetain r =
      if s.heap.count r = 0xFFFFFFFF then .error (.abort ObjectHeap.refcountOverflow)
      else .ok (s.heap.retain r) := by
    rw [ObjectHeap.objectRetain, if_neg (not_not_intro husable)]
  rw [stringNewLiteral]
  dsimp only
  rw [hslot, Option.join_some, hholds]
  dsimp only [bind, Except.bind]
  rw [hretain]
  by_cases hcount : s.heap.count r = 0xFFFFFFFF
  · rw [if_pos hcount, if_pos hcount]
  · rw [if_neg hcount, if_neg hcount]
    rfl

theorem strings_stringNew (hs : s.Interning) {data : BreadString} (x : Ref) (b : ObjectBody)
    (hx : (s.heap.stringNew data).2.body x = some b) : b.IsString := by
  by_cases hsize : x = s.heap.size
  · subst hsize
    rw [show (s.heap.stringNew data).2.body s.heap.size = _ from body_create s.heap _] at hx
    cases hx
    trivial
  · refine hs.strings x b ?_
    simpa [ObjectHeap.stringNew, ObjectHeap.create, Heap.alloc, hsize] using hx

/-- A literal that is not in the table. -/
theorem stringNewLiteral_miss (hs : s.Interning) {cstr : BreadString}
    (hmiss : ∀ r, s.interned[stringHash (cString cstr)]? = some (some r) →
      s.heap.body r ≠ some (.string (cString cstr))) :
    ∃ h, s.stringNewLiteral cstr = .ok (s.heap.size, { s with
        heap := h
        interned := s.interned.set (stringHash (cString cstr)) (some s.heap.size) }) ∧
      h.body s.heap.size = some (.string (cString cstr)) ∧
      ∀ x, h.body x = (s.heap.stringNew (cString cstr)).2.body x ∨ h.body x = none := by
  set data := cString cstr with hdata
  have hbucket : s.interned[stringHash data]? = some s.interned[stringHash data]?.join := by
    have hlt : stringHash data < s.interned.length := by
      rw [hs.accounted.buckets]
      exact stringHash_lt data
    rw [List.getElem?_eq_getElem hlt, Option.join_some]
  have hholds : s.holdsLiteral s.interned[stringHash data]?.join data = .ok false := by
    cases hfound : s.interned[stringHash data]?.join with
    | none => rfl
    | some r =>
        rw [hfound] at hbucket
        obtain ⟨data', hbody, -⟩ := hs.entries _ r hbucket
        have hne : data' ≠ data := fun heq => hmiss r hbucket (heq ▸ hbody)
        rw [holdsLiteral, ObjectHeap.stringAt, hbody]
        exact congrArg Except.ok (beq_eq_false_iff_ne.mpr hne)
  have hevict := balanced_evict hs.accounted data
  obtain ⟨h, hrelease, hb, hshrinks⟩ := releaseRefs_returns hevict
  have hsize : (s.heap.stringNew data).2.body s.heap.size = some (.string data) :=
    body_create s.heap _
  have hcount : h.count s.heap.size = 1 := by
    have hstrings : ∀ x b, h.body x = some b → b.IsString := by
      intro x b hx
      rcases hshrinks.body x with heq | hnone
      · rw [heq] at hx
        exact strings_stringNew hs x b hx
      · rw [hnone] at hx
        cases hx
    rw [hb.ledger.counted, incoming_eq_zero_of_strings hstrings, List.count_cons_self,
      List.count_eq_zero_of_not_mem]
    intro hmem
    have howed : s.heap.size ∈ valueRefs s.held ++ s.internedRefs := by
      rcases List.mem_append.mp hmem with hmem | hmem
      · exact List.mem_append_left _ hmem
      · obtain ⟨o, ho, hx⟩ := List.mem_flatMap.mp (List.nil_append _ ▸ hmem)
        rcases List.mem_or_eq_of_mem_set ho with ho | rfl
        · exact List.mem_append_right _ (List.mem_flatMap.mpr ⟨o, ho, hx⟩)
        · cases hx
    exact hs.live_of_owed howed (hs.accounted.balanced.ledger.fresh _ le_rfl)
  have hbody : h.body s.heap.size = some (.string data) := by
    rcases hshrinks.body s.heap.size with heq | hnone
    · rw [heq, hsize]
    · rw [hb.ledger.body_iff, hcount] at hnone
      cases hnone
  have hretain : h.objectRetain s.heap.size = .ok (h.retain s.heap.size) := by
    have husable := hb.ledger.usable (r := s.heap.size) (by rw [hcount]; exact Nat.one_ne_zero)
    rw [ObjectHeap.objectRetain, if_neg (not_not_intro husable), hcount, if_neg (by decide)]
  refine ⟨h.retain s.heap.size, ?_, hbody, hshrinks.body⟩
  rw [stringNewLiteral]
  dsimp only
  rw [← hdata, hholds]
  dsimp only [bind, Except.bind]
  cases hfound : s.interned[stringHash data]?.join <;>
  · rw [hfound] at hrelease
    dsimp only
    rw [show (s.heap.stringNew data).2.releaseRefs _ = _ from hrelease]
    dsimp only
    rw [show h.objectRetain (s.heap.stringNew data).1 = _ from hretain]
    rfl

/-- A call returns a live string with the bytes it is given, or the process ends because the
count of that string has reached its limit. -/
theorem stringNewLiteral_returns (hs : s.Interning) (cstr : BreadString) :
    (∃ r s', s.stringNewLiteral cstr = .ok (r, s') ∧
        s'.heap.body r = some (.string (cString cstr))) ∨
      (s.stringNewLiteral cstr = .error (.abort ObjectHeap.refcountOverflow) ∧
        ∃ r ∈ s.internedRefs, s.heap.body r = some (.string (cString cstr)) ∧
          s.heap.count r = 0xFFFFFFFF) := by
  by_cases hmiss : ∀ r, s.interned[stringHash (cString cstr)]? = some (some r) →
      s.heap.body r ≠ some (.string (cString cstr))
  · obtain ⟨h, hcall, hbody, -⟩ := hs.stringNewLiteral_miss hmiss
    exact .inl ⟨_, _, hcall, hbody⟩
  · push Not at hmiss
    obtain ⟨r, hslot, hbody⟩ := hmiss
    have hcall := hs.stringNewLiteral_hit hslot hbody
    by_cases hcount : s.heap.count r = 0xFFFFFFFF
    · rw [if_pos hcount] at hcall
      exact .inr ⟨hcall, r, mem_internedRefs.mpr ⟨_, hslot⟩, hbody, hcount⟩
    · rw [if_neg hcount] at hcall
      exact .inl ⟨r, _, hcall, hbody⟩

/-- What has been kept of the balance of a step that loses nothing. -/
theorem accounted_of_step (hs : s.Interning) (op : ObjectOp) {vs : List HeapValue}
    (hop : op.concernsLiterals = true) (howns : s.Releases op) (hstep : s.step op = .ok (s', vs)) :
    s'.Accounted [] := by
  obtain ⟨lost, haccounted, hkeeps⟩ := step_spec hs.accounted op howns _ hstep
  have hnone : s.stepKeeps op = true := by
    cases op <;> first | rfl | cases hop
  obtain ⟨rfl, -⟩ := hkeeps hnone
  exact haccounted

theorem step_stringNewLiteral (hs : s.Interning) (cstr : BreadString) :
    s.step (.stringNewLiteral cstr) = .error (.abort ObjectHeap.refcountOverflow) ∨
      ∃ s' vs, s.step (.stringNewLiteral cstr) = .ok (s', vs) ∧ s'.Interning := by
  by_cases hmiss : ∀ r, s.interned[stringHash (cString cstr)]? = some (some r) →
      s.heap.body r ≠ some (.string (cString cstr))
  · obtain ⟨h, hcall, -, hbody⟩ := hs.stringNewLiteral_miss hmiss
    have hstep := step_of_literal hcall
    refine .inr ⟨_, _, hstep, .of_heap (hs.accounted_of_step (.stringNewLiteral cstr) rfl trivial hstep)
      (strings_stringNew hs) hbody ?_ fun i r hi => ?_⟩
    · exact List.forall_mem_cons.mpr ⟨⟨_, rfl⟩, hs.held⟩
    · rw [List.getElem?_set] at hi
      split at hi
      next hbucket =>
        split at hi
        next =>
          cases hi
          exact ⟨_, body_create s.heap _, hbucket⟩
        next => cases hi
      next =>
        obtain ⟨data, hdata, hhash⟩ := hs.entries i r hi
        refine ⟨data, ?_, hhash⟩
        have hne : r ≠ s.heap.size :=
          (hs.accounted.balanced.ledger.lt_size hdata).ne
        simpa [ObjectHeap.stringNew, ObjectHeap.create, Heap.alloc, hne] using hdata
  · push Not at hmiss
    obtain ⟨r, hslot, hbody⟩ := hmiss
    have hcall := hs.stringNewLiteral_hit hslot hbody
    by_cases hcount : s.heap.count r = 0xFFFFFFFF
    · rw [if_pos hcount] at hcall
      refine .inl ?_
      rw [ObjectState.step, hcall]
      rfl
    · rw [if_neg hcount] at hcall
      have hstep := step_of_literal hcall
      refine .inr ⟨_, _, hstep, .of_heap (hs.accounted_of_step (.stringNewLiteral cstr) rfl trivial hstep)
        hs.strings (fun x => .inl rfl) ?_ hs.entries⟩
      exact List.forall_mem_cons.mpr ⟨⟨r, rfl⟩, hs.held⟩

theorem step_release (hs : s.Interning) {v : HeapValue} (hv : v ∈ s.held) :
    ∃ s' vs, s.step (.release v) = .ok (s', vs) ∧ s'.Interning := by
  obtain ⟨h, hrelease, -, hshrinks⟩ := releaseRefs_returns (hs.accounted.balanced_release hv)
  have hstep : s.step (.release v) = .ok ({ s with heap := h, held := s.held.erase v }, []) := by
    rw [ObjectState.step, ObjectHeap.valueRelease, hrelease]
    rfl
  exact ⟨_, _, hstep, .of_heap (hs.accounted_of_step (.release v) rfl hv hstep) hs.strings
    hshrinks.body (fun w hw => hs.held w (List.mem_of_mem_erase hw)) hs.entries⟩

theorem step_stringInternCleanup (hs : s.Interning) :
    ∃ s' vs, s.step .stringInternCleanup = .ok (s', vs) ∧ s'.Interning := by
  obtain ⟨h, hrelease, -, hshrinks⟩ := releaseRefs_returns hs.accounted.balanced_cleanup
  have hstep : s.step .stringInternCleanup =
      .ok ({ s with heap := h, interned := s.interned.map fun _ => none }, []) := by
    rw [ObjectState.step, stringInternCleanup, hrelease]
    rfl
  refine ⟨_, _, hstep, .of_heap (hs.accounted_of_step .stringInternCleanup rfl trivial hstep)
    hs.strings hshrinks.body hs.held fun i r hi => ?_⟩
  have hmem := List.mem_of_getElem? hi
  simp at hmem

/-- **One step** keeps the invariant, or ends the process. -/
theorem step (hs : s.Interning) {op : ObjectOp} (hop : op.concernsLiterals = true)
    (howns : s.Releases op) :
    s.step op = .error (.abort ObjectHeap.refcountOverflow) ∨
      ∃ s' vs, s.step op = .ok (s', vs) ∧ s'.Interning := by
  cases op with
  | stringNewLiteral cstr => exact hs.step_stringNewLiteral cstr
  | release v => exact .inr (hs.step_release howns)
  | stringInternCleanup => exact .inr hs.step_stringInternCleanup
  | _ => cases hop

end Interning

/-! ### Runs -/

/-- **Interning is transparent**: a count is that of the references of owners and of the table,
an object without any has been freed once and every other one is live, and a call returns a live
string with the bytes it is given or ends the process because its count is at the limit. -/
structure Transparent (s : ObjectState) : Prop where
  counted : ∀ r, s.heap.count r =
    s.held.count (.string (some r)) + if r ∈ s.internedRefs then 1 else 0
  live : ∀ r, s.heap.body r = none ↔ s.heap.count r = 0
  freed : ∀ r < s.heap.size, s.heap.returned r = if s.heap.count r = 0 then 1 else 0
  literal : ∀ cstr,
    (∃ r s', s.stringNewLiteral cstr = .ok (r, s') ∧
        s'.heap.body r = some (.string (cString cstr))) ∨
      (s.stringNewLiteral cstr = .error (.abort ObjectHeap.refcountOverflow) ∧
        ∃ r ∈ s.internedRefs, s.heap.body r = some (.string (cString cstr)) ∧
          s.heap.count r = 0xFFFFFFFF)

theorem Interning.transparent (hs : s.Interning) : s.Transparent where
  counted := hs.counted
  live := hs.accounted.balanced.ledger.body_iff
  freed r hr := by
    have hreturned := hs.accounted.balanced.ledger.returned r
    rw [List.count_nil, Nat.add_zero, Heap.dead] at hreturned
    simpa [hr] using hreturned
  literal := hs.stringNewLiteral_returns

/-- **Every run of literals, releases and cleanups** is transparent in all states that it gets
to, or it ends where a count cannot grow. -/
theorem interning_transparent (definitions : List ClassDefinition) (ops : List ObjectOp)
    (hguard : Run.Guarded step (fun s op => op.concernsLiterals = true ∧ s.Releases op)
      (init definitions) ops) :
    Run.run step (init definitions) ops = .error (.abort ObjectHeap.refcountOverflow) ∨
      ∃ s rs, Run.run step (init definitions) ops = .ok (s, rs) ∧ s.Transparent := by
  have hstep : ∀ (s : ObjectState) (op : ObjectOp), s.Interning →
      op.concernsLiterals = true ∧ s.Releases op →
      (∃ e, s.step op = .error e ∧ e = .abort ObjectHeap.refcountOverflow) ∨
        ∃ s' vs, s.step op = .ok (s', vs) ∧ s'.Interning := by
    intro s op hs hnow
    rcases hs.step hnow.1 hnow.2 with hstop | hnext
    · exact .inl ⟨_, hstop, rfl⟩
    · exact .inr hnext
  rcases Run.run_invariant_or_stops Interning _ ops hstep _ (.init definitions) hguard with
    ⟨e, hrun, rfl⟩ | ⟨s, rs, hrun, hs⟩
  · exact .inl hrun
  · exact .inr ⟨s, rs, hrun, hs.transparent⟩

/-! ### Two programs -/

/-- The string of a literal is the one in its place of the table. -/
structure HasLiteral (s : ObjectState) (cstr : BreadString) (r : Ref) : Prop where
  interning : s.Interning
  slot : s.interned[stringHash (cString cstr)]? = some (some r)
  body : s.heap.body r = some (.string (cString cstr))

/-- The first literal of a program. -/
theorem step_first_literal (definitions : List ClassDefinition) (cstr : BreadString) :
    ∃ s vs, (init definitions).step (.stringNewLiteral cstr) = .ok (s, vs) ∧
      s.held = [.string (some 0)] ∧ s.HasLiteral cstr 0 := by
  have hinit := Interning.init definitions
  have hempty : ∀ r : Ref, (init definitions).interned[stringHash (cString cstr)]? ≠
      some (some r) := by
    intro r hr
    have hmem := List.mem_of_getElem? hr
    rw [init, List.mem_replicate] at hmem
    cases hmem.2
  obtain ⟨h, hcall, hbody, -⟩ := hinit.stringNewLiteral_miss fun r hr => absurd hr (hempty r)
  have hstep := step_of_literal hcall
  refine ⟨_, _, hstep, rfl, ?_, ?_, hbody⟩
  · rcases hinit.step_stringNewLiteral cstr with hstop | ⟨s, vs, hs, hinterning⟩
    · rw [hstep] at hstop
      cases hstop
    · rw [hstep] at hs
      cases hs
      exact hinterning
  · refine List.getElem?_set_self ?_
    rw [init, List.length_replicate]
    exact stringHash_lt _

/-- The same literal again. -/
theorem HasLiteral.step {s : ObjectState} {cstr : BreadString} (hs : s.HasLiteral cstr r)
    (hcount : s.heap.count r ≠ 0xFFFFFFFF) :
    ∃ s' vs, s.step (.stringNewLiteral cstr) = .ok (s', vs) ∧ s'.HasLiteral cstr r ∧
      s'.heap.count r = s.heap.count r + 1 := by
  have hcall := hs.interning.stringNewLiteral_hit hs.slot hs.body
  rw [if_neg hcount] at hcall
  have hstep := step_of_literal hcall
  refine ⟨_, _, hstep, ⟨?_, hs.slot, hs.body⟩, Function.update_self ..⟩
  rcases hs.interning.step_stringNewLiteral cstr with hstop | ⟨t, vs, ht, hinterning⟩
  · rw [hstep] at hstop
    cases hstop
  · rw [hstep] at ht
    cases ht
    exact hinterning

/-- A literal, over and over. -/
theorem HasLiteral.run {cstr : BreadString} (n : ℕ) :
    ∀ {s : ObjectState}, s.HasLiteral cstr r → s.heap.count r + n ≤ 0xFFFFFFFF →
      ∃ s' rs, Run.run ObjectState.step s (List.replicate n (.stringNewLiteral cstr)) =
          .ok (s', rs) ∧ s'.HasLiteral cstr r ∧ s'.heap.count r = s.heap.count r + n := by
  induction n with
  | zero => exact fun hs _ => ⟨_, [], rfl, hs, rfl⟩
  | succ n ih =>
      intro s hs hle
      obtain ⟨s₁, vs, hstep, hs₁, hcount⟩ := hs.step (by omega)
      obtain ⟨s₂, rs, hrun, hs₂, hcount₂⟩ := ih hs₁ (by omega)
      refine ⟨s₂, vs :: rs, ?_, hs₂, by omega⟩
      rw [List.replicate_succ, Run.run, hstep]
      dsimp only
      rw [hrun]

/-- A literal that is asked for and released. -/
theorem releasedLiteral_transparent :
    Run.run step (init []) [.stringNewLiteral "bread".toList, .release (.string (some 0))] =
        .error (.abort ObjectHeap.refcountOverflow) ∨
      ∃ s rs, Run.run step (init [])
        [.stringNewLiteral "bread".toList, .release (.string (some 0))] = .ok (s, rs) ∧
          s.Transparent := by
  refine interning_transparent [] _ ⟨⟨rfl, trivial⟩, ?_⟩
  obtain ⟨s, vs, hstep, hheld, -⟩ := step_first_literal [] "bread".toList
  rw [hstep]
  refine ⟨⟨rfl, ?_⟩, ?_⟩
  · show _ ∈ s.held
    rw [hheld]
    exact List.mem_singleton_self _
  · split <;> trivial

/-- **A literal that owners have asked for 2³² - 2 times** and kept ends the process when it is
asked for once more. -/
theorem keptLiteral_overflows : ∃ s rs,
    Run.run step (init []) (List.replicate 0xFFFFFFFE (.stringNewLiteral "bread".toList)) =
        .ok (s, rs) ∧
      s.stringNewLiteral "bread".toList = .error (.abort ObjectHeap.refcountOverflow) := by
  obtain ⟨s, vs, hstep, hheld, hs⟩ := step_first_literal [] "bread".toList
  have hcount : s.heap.count 0 = 2 := by
    rw [hs.interning.counted, hheld, List.count_singleton_self,
      if_pos (mem_internedRefs.mpr ⟨_, hs.slot⟩)]
  obtain ⟨s', rs, hrun, hs', hcount'⟩ := hs.run 0xFFFFFFFD (by rw [hcount])
  refine ⟨s', vs :: rs, ?_, ?_⟩
  · rw [show (0xFFFFFFFE : ℕ) = 0xFFFFFFFD + 1 from rfl, List.replicate_succ, Run.run, hstep]
    dsimp only
    rw [hrun]
  · rw [hs'.interning.stringNewLiteral_hit hs'.slot hs'.body, if_pos]
    rw [hcount', hcount]

end ObjectState

end BreadLang
