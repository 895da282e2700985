import BreadLang.Core.Array
import BreadLang.Library.Loop
import BreadLang.Runtime.IntegerOps

/-!
# The array of a range

`bread_range_create` appends the terms of an arithmetic progression to an array of `Int`.
Its bounds are 64-bit integers, but its counter is an `int`: the start is converted to one,
and so is the counter after each increment.  An array holds at most `maxLength` elements,
beyond which doubling its capacity overflows.

## Main results

* `exists_returns_iff_counts`: what the loop appends, one turn at a time.
* `rangeCreate_meets_iff`: the ranges whose array is the progression.
-/

namespace BreadLang

/-- The conversion of an integer to `int`. -/
def toInt (x : ℤ) : ℤ := x.bmod (2 ^ 32)

/-- The integers that an `int` represents. -/
abbrev IsInt32 (x : ℤ) : Prop := intMin ≤ x ∧ x ≤ intMax

theorem toInt_eq_self_iff {x : ℤ} : toInt x = x ↔ IsInt32 x := by
  have hlow := Int.le_bmod (x := x) (m := 2 ^ 32) (by decide)
  have hhigh := Int.bmod_lt (x := x) (m := 2 ^ 32) (by decide)
  rw [toInt, IsInt32, intMin, intMax]
  constructor
  · intro h
    omega
  · rintro ⟨hmin, hmax⟩
    exact Int.bmod_eq_of_le (by omega) (by omega)

theorem isInt32_toInt (x : ℤ) : IsInt32 (toInt x) := by
  have hlow := Int.le_bmod (x := x) (m := 2 ^ 32) (by decide)
  have hhigh := Int.bmod_lt (x := x) (m := 2 ^ 32) (by decide)
  rw [toInt, IsInt32, intMin, intMax]
  omega

theorem IsInt32.isInt64 {x : ℤ} (h : IsInt32 x) : IsInt64 x := by
  rw [IsInt32, intMin, intMax] at h
  omega

/-! ### `bread_range_create` -/

/-- The counter `i` and the array `arr`; no array once the function has returned NULL. -/
structure RangeState where
  counter : ℤ
  array : Option BreadArray

/-- `(step > 0) ? (i < end) : (i > end)`. -/
def rangeTest (stop step : BreadInt) (s : RangeState) : Bool :=
  s.array.isSome && decide (Precedes step.val s.counter stop.val)

/-- The body of the loop and `i += step`. -/
def rangeBody (step : BreadInt) (s : RangeState) : Exec RangeState :=
  match s.array with
  | none => .ok s
  | some a => do
      let (a, appended) ← a.append (.int (BreadInt.wrap s.counter))
      if appended then do
        let next ← checkedInt64 (s.counter + step.val)
        return { counter := toInt next.val, array := some a }
      else return { s with array := none }

/-- Nothing lies between the bounds. -/
def isEmptyRange (start stop step : BreadInt) : Bool :=
  (0 < step.val && stop.val ≤ start.val) || (step.val < 0 && start.val ≤ stop.val)

/-- `bread_range_create`, with at most so many tests of its loop. -/
def breadRangeCreate (fuel : ℕ) (start stop step : BreadInt) :
    Option (Exec (Option BreadArray)) :=
  if step.val = 0 then some (.ok none)
  else if isEmptyRange start stop step then some (.ok (some (.newTyped .typeInt)))
  else
    (Loop.run (rangeTest stop step) (rangeBody step) fuel
      { counter := toInt start.val, array := some (.newTyped .typeInt) }).map
        (RangeState.array <$> ·)

/-! ### One turn -/

namespace BreadArray

/-- A full array of the largest capacity does not grow. -/
theorem Inv.append_full {a : BreadArray} (ha : a.Inv) {v : BreadValue}
    (htype : a.elementType = v.type) (hfull : ¬a.items.length < maxLength) :
    a.append v = .error (.undefined .signedOverflow) := by
  have hcount := ha.count_eq
  have hfits := ha.fits
  have hcap : a.capacity = 2 ^ 30 := by
    rw [maxLength] at hfull
    rcases ha.capacity_eq with hzero | ⟨k, _, hk30, hcap⟩
    · omega
    · have hpow : 2 ^ k ≤ 2 ^ 30 := Nat.pow_le_pow_right (by omega) hk30
      omega
  rw [maxLength] at hfull
  have hle : a.capacity ≤ a.count := by omega
  have hmatch : ¬(a.elementType ≠ .typeNil ∧ a.elementType ≠ v.type) := fun h => h.2 htype
  rw [append, if_neg hmatch]
  show ((a.adoptType v).growIfFull >>= _) = _
  rw [growIfFull, if_pos (show (a.adoptType v).capacity ≤ (a.adoptType v).count from hle),
    grownCapacity]
  show ((if a.capacity = 0 then Except.ok 8 else checkedInt (a.capacity * 2)) >>= _) >>= _ = _
  rw [hcap]
  rfl

end BreadArray

/-- The array of a range in the making. -/
structure IsIntArray (a : BreadArray) : Prop where
  inv : a.Inv
  elementType : a.elementType = .typeInt

theorem isIntArray_newTyped : IsIntArray (.newTyped .typeInt) where
  inv := BreadArray.newTyped_inv _
  elementType := rfl

variable {stop step : BreadInt} {i : ℤ} {a : BreadArray}

theorem rangeBody_eq {a' : BreadArray}
    (happend : a.append (.int (BreadInt.wrap i)) = .ok (a', true)) :
    rangeBody step ⟨i, some a⟩ =
      (do return ⟨toInt (← checkedInt64 (i + step.val)).val, some a'⟩) := by
  simp only [rangeBody, happend]
  rfl

theorem rangeBody_of_fits (ha : IsIntArray a) (hroom : a.items.length < BreadArray.maxLength)
    (hfits : IsInt64 (i + step.val)) :
    ∃ a', rangeBody step ⟨i, some a⟩ = .ok ⟨toInt (i + step.val), some a'⟩ ∧
      IsIntArray a' ∧ a'.items = a.items ++ [.int (BreadInt.wrap i)] := by
  obtain ⟨a', happend, hinv, hitems, htype⟩ :=
    ha.inv.append_spec (v := .int (BreadInt.wrap i)) (.inr ha.elementType) hroom
  have hchecked : checkedInt64 (i + step.val) = .ok ⟨i + step.val, hfits⟩ := dif_pos hfits
  refine ⟨a', ?_, ⟨hinv, htype.elim (·.trans ha.elementType) id⟩, hitems⟩
  rw [rangeBody_eq happend, hchecked]
  rfl

theorem fits_of_rangeBody (ha : IsIntArray a) {t : RangeState}
    (h : rangeBody step ⟨i, some a⟩ = .ok t) :
    a.items.length < BreadArray.maxLength ∧ IsInt64 (i + step.val) := by
  have hroom : a.items.length < BreadArray.maxLength := by
    by_contra hfull
    simp only [rangeBody, ha.inv.append_full (v := .int (BreadInt.wrap i)) ha.elementType hfull]
      at h
    cases h
  obtain ⟨a', happend, _⟩ :=
    ha.inv.append_spec (v := .int (BreadInt.wrap i)) (.inr ha.elementType) hroom
  refine ⟨hroom, ?_⟩
  by_contra hover
  have hchecked : checkedInt64 (i + step.val) = .error (.undefined .signedOverflow) :=
    dif_neg hover
  rw [rangeBody_eq happend, hchecked] at h
  cases h

/-! ### The loop -/

/-- A counter at `i`, in an array of so many elements, goes through the given values. -/
def Counts (stop step : ℤ) : ℕ → ℤ → List ℤ → Prop
  | _, i, [] => ¬Precedes step i stop
  | length, i, x :: xs =>
      Precedes step i stop ∧ i = x ∧ length < BreadArray.maxLength ∧ IsInt64 (i + step) ∧
        Counts stop step (length + 1) (toInt (i + step)) xs

/-- The loop only appends. -/
theorem prefix_of_returns (ha : IsIntArray a) {s' : RangeState} {a' : BreadArray}
    (h : Loop.Returns (rangeTest stop step) (rangeBody step) ⟨i, some a⟩ s')
    (harray : s'.array = some a') : a.items <+: a'.items := by
  have hinv := h.invariant
    (I := fun s => ∃ b, s.array = some b ∧ IsIntArray b ∧ a.items <+: b.items)
    (fun s t hs _ hbody => by
      obtain ⟨b, hb, hint, hprefix⟩ := hs
      obtain ⟨counter, array⟩ := s
      obtain rfl : array = some b := hb
      obtain ⟨hroom, hfits⟩ := fits_of_rangeBody hint hbody
      obtain ⟨b', hbody', hint', hitems⟩ := rangeBody_of_fits hint hroom hfits
      rw [hbody'] at hbody
      cases hbody
      exact ⟨b', rfl, hint', hprefix.trans (hitems ▸ List.prefix_append _ _)⟩)
    ⟨a, rfl, ha, List.prefix_rfl⟩
  obtain ⟨b, hb, _, hprefix⟩ := hinv
  rw [harray] at hb
  cases hb
  exact hprefix

/-- The loop ends in an array with the given values appended. -/
def Appends (stop step : BreadInt) (i : ℤ) (a : BreadArray) (xs : List BreadInt) : Prop :=
  ∃ c a', Loop.Returns (rangeTest stop step) (rangeBody step) ⟨i, some a⟩ ⟨c, some a'⟩ ∧
    IsIntArray a' ∧ a'.items = a.items ++ xs.map .int

/-- **What the loop appends.**  The induction is on the values, one turn each. -/
theorem appends_iff_counts (xs : List BreadInt) (ha : IsIntArray a) (hi : IsInt32 i) :
    Appends stop step i a xs ↔
      Counts stop.val step.val a.items.length i (xs.map BreadInt.val) := by
  induction xs generalizing i a with
  | nil =>
      constructor
      · rintro ⟨c, a', hreturns, _, hitems⟩ hprecedes
        have htest : rangeTest stop step ⟨i, some a⟩ = true := decide_eq_true hprecedes
        rcases Loop.returns_iff.mp hreturns with ⟨hstop, _⟩ | ⟨_, t, hbody, hrest⟩
        · rw [htest] at hstop
          cases hstop
        · obtain ⟨hroom, hfits⟩ := fits_of_rangeBody ha hbody
          obtain ⟨b, hb, hint, hgrown⟩ := rangeBody_of_fits ha hroom hfits
          rw [hb] at hbody
          cases hbody
          have hle := (prefix_of_returns hint hrest rfl).length_le
          rw [hgrown, hitems, List.length_append, List.map_nil, List.append_nil] at hle
          exact absurd hle (Nat.not_succ_le_self _)
      · intro hstop
        refine ⟨i, a, Loop.returns_of_not_test (decide_eq_false hstop), ha, ?_⟩
        rw [List.map_nil, List.append_nil]
  | cons x xs ih =>
      have hnext : IsInt32 (toInt (i + step.val)) := isInt32_toInt _
      constructor
      · rintro ⟨c, a', hreturns, hint', hitems⟩
        rcases Loop.returns_iff.mp hreturns with ⟨_, heq⟩ | ⟨htest, t, hbody, hrest⟩
        · cases heq
          have hlength := congrArg List.length hitems
          rw [List.length_append, List.map_cons, List.length_cons] at hlength
          omega
        · obtain ⟨hroom, hfits⟩ := fits_of_rangeBody ha hbody
          obtain ⟨b, hb, hint, hgrown⟩ := rangeBody_of_fits ha hroom hfits
          rw [hb] at hbody
          cases hbody
          obtain ⟨rest, hrest'⟩ := prefix_of_returns hint hrest rfl
          -- the element appended now is the first of the values
          have hvalues : .int (BreadInt.wrap i) :: rest = .int x :: xs.map BreadValue.int := by
            rw [hgrown, List.append_assoc] at hrest'
            exact List.append_cancel_left (hrest'.trans hitems)
          obtain ⟨hhead, htail⟩ := List.cons.inj hvalues
          have hvalue : i = x.val := by
            rw [← BreadValue.int.inj hhead, BreadInt.val_wrap hi.isInt64]
          refine ⟨of_decide_eq_true htest, hvalue, hroom, hfits, ?_⟩
          have hcounts := (ih hint hnext).mp ⟨c, a', hrest, hint', by rw [← hrest', htail]⟩
          rwa [hgrown, List.length_append] at hcounts
      · rintro ⟨hprecedes, hvalue, hroom, hfits, hcounts⟩
        obtain ⟨b, hb, hint, hgrown⟩ : ∃ b, rangeBody step ⟨i, some a⟩ =
            .ok ⟨toInt (i + step.val), some b⟩ ∧ IsIntArray b ∧
              b.items = a.items ++ [.int (BreadInt.wrap i)] := rangeBody_of_fits ha hroom hfits
        have hlength : b.items.length = a.items.length + 1 := by
          rw [hgrown, List.length_append]
          rfl
        obtain ⟨c, a', hrest, hint', hitems⟩ := (ih hint hnext).mpr (hlength ▸ hcounts)
        have hx : BreadInt.wrap i = x := by
          have hval := BreadInt.val_wrap hi.isInt64
          rw [hvalue] at hval ⊢
          cases x
          exact (BreadInt.mk.injEq ..).mpr hval
        refine ⟨c, a', Loop.returns_of_body (decide_eq_true hprecedes) hb hrest, hint', ?_⟩
        rw [hitems, hgrown, hx, List.append_assoc]
        rfl

/-! ### The ranges that are right -/

/-- The counter goes through a progression exactly when every term is an `int`, the array
has room for them, and the increment that passes the bound is still past it when it has
been converted. -/
theorem counts_iff {start stop step : ℤ} {xs : List ℤ} (hxs : xs ≠ [])
    (h : IsProgression start stop step xs) (length : ℕ) :
    Counts stop step length (toInt start) xs ↔
      (∀ x ∈ xs, IsInt32 x) ∧ length + xs.length ≤ BreadArray.maxLength ∧
        IsInt64 (start + xs.length * step) ∧
          ¬Precedes step (toInt (start + xs.length * step)) stop := by
  induction xs generalizing start length with
  | nil => exact absurd rfl hxs
  | cons x xs ih =>
      obtain ⟨rfl, hprecedes, hrest⟩ := h.of_cons
      have hlast : x + (x :: xs).length * step = x + step + xs.length * step := by
        rw [List.length_cons]
        push_cast
        ring
      rw [hlast, List.length_cons]
      have hunfold : Counts stop step length (toInt x) (x :: xs) ↔
          IsInt32 x ∧ length < BreadArray.maxLength ∧ IsInt64 (x + step) ∧
            Counts stop step (length + 1) (toInt (x + step)) xs := by
        rw [Counts, toInt_eq_self_iff]
        constructor
        · rintro ⟨_, hx, hroom, hfits, hcounts⟩
          rw [toInt_eq_self_iff.mpr hx] at hfits hcounts
          exact ⟨hx, hroom, hfits, hcounts⟩
        · rintro ⟨hx, hroom, hfits, hcounts⟩
          rw [toInt_eq_self_iff.mpr hx]
          exact ⟨hprecedes, hx, hroom, hfits, hcounts⟩
      rw [hunfold]
      cases xs with
      | nil =>
          have hzero : x + step + ([] : List ℤ).length * step = x + step := by simp
          rw [hzero]
          constructor
          · rintro ⟨hx, hroom, hfits, hstop⟩
            exact ⟨List.forall_mem_singleton.mpr hx, hroom, hfits, hstop⟩
          · rintro ⟨hall, hroom, hfits, hstop⟩
            exact ⟨List.forall_mem_singleton.mp hall, hroom, hfits, hstop⟩
      | cons y ys =>
          rw [ih (List.cons_ne_nil y ys) hrest (length + 1), List.forall_mem_cons (a := x),
            Nat.add_right_comm]
          have hsecond : y = x + step := hrest.of_cons.1
          constructor
          · rintro ⟨hx, _, _, hall, hroom, hfits, hstop⟩
            exact ⟨⟨hx, hall⟩, hroom, hfits, hstop⟩
          · rintro ⟨⟨hx, hall⟩, hroom, hfits, hstop⟩
            have hy : IsInt32 (x + step) := hsecond ▸ hall y List.mem_cons_self
            refine ⟨hx, ?_, hy.isInt64, hall, hroom, hfits, hstop⟩
            rw [List.length_cons] at hroom
            omega

/-- `bread_range_create` returns the array of the progression, with every value exact. -/
def RangeMeets (start stop step : BreadInt) : Prop :=
  ∃ fuel a, ∃ xs : List BreadInt, breadRangeCreate fuel start stop step = some (.ok (some a)) ∧
    IsIntArray a ∧ a.items = xs.map .int ∧
      IsProgression start.val stop.val step.val (xs.map BreadInt.val)

/-- The term of a progression, and the value of the counter after the last one. -/
def rangeTerm (start step : BreadInt) (k : ℕ) : ℤ := start.val + k * step.val

/-- The range is empty; or every term is an `int`, they fit in an array, and the increment
that passes the bound does not overflow and is past it also as an `int`. -/
def RangeFits (start stop step : BreadInt) : Prop :=
  let n := progressionLength start.val stop.val step.val
  n = 0 ∨
    ((∀ k < n, IsInt32 (rangeTerm start step k)) ∧ n ≤ BreadArray.maxLength ∧
      IsInt64 (rangeTerm start step n) ∧
        ¬Precedes step.val (toInt (rangeTerm start step n)) stop.val)

section Create

variable {start stop step : BreadInt}

theorem isEmptyRange_iff (hstep : step.val ≠ 0) :
    isEmptyRange start stop step ↔ progressionLength start.val stop.val step.val = 0 := by
  have hfirst : Precedes step.val (start.val + (0 : ℕ) * step.val) stop.val ↔
      0 < progressionLength start.val stop.val step.val :=
    precedes_iff_lt_progressionLength hstep 0
  rw [Nat.cast_zero, Int.zero_mul, Int.add_zero] at hfirst
  have hempty : isEmptyRange start stop step ↔ ¬Precedes step.val start.val stop.val := by
    rw [isEmptyRange, Precedes]
    split <;> simp <;> omega
  rw [hempty, hfirst]
  omega

/-- The progression in terms of 64-bit integers. -/
theorem isProgression_iff {xs : List BreadInt} (hstep : step.val ≠ 0) :
    IsProgression start.val stop.val step.val (xs.map BreadInt.val) ↔
      xs.map BreadInt.val =
        (List.range (progressionLength start.val stop.val step.val)).map
          (rangeTerm start step) := by
  have hexists : IsProgression start.val stop.val step.val
      ((List.range (progressionLength start.val stop.val step.val)).map
        (rangeTerm start step)) := .of_step_ne_zero hstep
  constructor
  · intro h
    refine List.ext_getElem ((h.length_eq hstep).trans (hexists.length_eq hstep).symm) ?_
    intro k hk hk'
    exact (h.get_eq k hk).trans (hexists.get_eq k hk').symm
  · intro h
    exact h ▸ hexists

theorem meets_of_isEmptyRange (hstep : step.val ≠ 0) (h : isEmptyRange start stop step) :
    RangeMeets start stop step := by
  refine ⟨0, .newTyped .typeInt, [], ?_, isIntArray_newTyped, rfl, ?_⟩
  · rw [breadRangeCreate, if_neg hstep, if_pos h]
  · rw [isProgression_iff hstep, (isEmptyRange_iff hstep).mp h]
    rfl

theorem meets_iff_appends (hstep : step.val ≠ 0) (h : isEmptyRange start stop step = false) :
    RangeMeets start stop step ↔
      ∃ xs, Appends stop step (toInt start.val) (.newTyped .typeInt) xs ∧
        IsProgression start.val stop.val step.val (xs.map BreadInt.val) := by
  have hrun (fuel : ℕ) : breadRangeCreate fuel start stop step =
      (Loop.run (rangeTest stop step) (rangeBody step) fuel
        ⟨toInt start.val, some (.newTyped .typeInt)⟩).map (RangeState.array <$> ·) := by
    rw [breadRangeCreate, if_neg hstep, if_neg (by rw [h]; exact Bool.false_ne_true)]
  constructor
  · rintro ⟨fuel, a, xs, hcreate, ha, hitems, hxs⟩
    rw [hrun, Option.map_eq_some_iff] at hcreate
    obtain ⟨r, hloop, hr⟩ := hcreate
    obtain ⟨s', rfl, harray⟩ := map_eq_ok.mp hr
    obtain ⟨c, array⟩ := s'
    obtain rfl : array = some a := harray
    exact ⟨xs, ⟨c, a, ⟨fuel, hloop⟩, ha, hitems⟩, hxs⟩
  · rintro ⟨xs, ⟨c, a, ⟨fuel, hloop⟩, ha, hitems⟩, hxs⟩
    exact ⟨fuel, a, xs, by rw [hrun, hloop]; rfl, ha, hitems, hxs⟩

/-- The terms that fit in an `int` are those of a list of 64-bit integers. -/
theorem exists_terms {n : ℕ} (h : ∀ k < n, IsInt32 (rangeTerm start step k)) :
    ∃ xs : List BreadInt,
      xs.map BreadInt.val = (List.range n).map (rangeTerm start step) := by
  refine ⟨(List.range n).map fun k => BreadInt.wrap (rangeTerm start step k), ?_⟩
  rw [List.map_map]
  exact List.map_congr_left fun k hk =>
    BreadInt.val_wrap (h k (List.mem_range.mp hk)).isInt64

/-- The loop appends the progression, which is not empty, exactly when the range fits. -/
theorem appends_iff_fits {xs : List BreadInt} (hstep : step.val ≠ 0)
    (hsome : progressionLength start.val stop.val step.val ≠ 0)
    (hxs : xs.map BreadInt.val =
      (List.range (progressionLength start.val stop.val step.val)).map (rangeTerm start step)) :
    Appends stop step (toInt start.val) (.newTyped .typeInt) xs ↔
      RangeFits start stop step := by
  have hlength : (xs.map BreadInt.val).length =
      progressionLength start.val stop.val step.val := by
    rw [hxs, List.length_map, List.length_range]
  have hne : xs.map BreadInt.val ≠ [] := by
    intro hnil
    rw [hnil] at hlength
    exact hsome hlength.symm
  rw [appends_iff_counts xs isIntArray_newTyped (isInt32_toInt _),
    counts_iff hne ((isProgression_iff hstep).mpr hxs), RangeFits, or_iff_right hsome, hlength]
  refine and_congr ?_ (and_congr ?_ Iff.rfl)
  · rw [hxs]
    simp
  · exact Iff.of_eq (congrArg (· ≤ _) (Nat.zero_add _))

/-- A range that is not empty starts at an `int`, or its array is wrong. -/
theorem isInt32_start_of_meets (hstep : step.val ≠ 0)
    (hsome : progressionLength start.val stop.val step.val ≠ 0)
    (h : RangeMeets start stop step) : IsInt32 start.val := by
  have hempty : isEmptyRange start stop step = false := by
    rw [Bool.eq_false_iff]
    intro hempty
    exact hsome ((isEmptyRange_iff hstep).mp hempty)
  obtain ⟨xs, happends, hxs⟩ := (meets_iff_appends hstep hempty).mp h
  have hfits := (appends_iff_fits hstep hsome ((isProgression_iff hstep).mp hxs)).mp happends
  have hstart := (hfits.resolve_left hsome).1 0 (Nat.pos_of_ne_zero hsome)
  rwa [rangeTerm, Nat.cast_zero, Int.zero_mul, Int.add_zero] at hstart

end Create

/-- `bread_range`. -/
def breadRange (fuel : ℕ) (n : BreadInt) : Option (Exec (Option BreadArray)) :=
  breadRangeCreate fuel 0 n 1

/-- The ranges of `bread_range` that fit are those an array has room for. -/
theorem rangeFits_zero_one_iff (n : BreadInt) : RangeFits 0 n 1 ↔ n.val ≤ 2 ^ 30 := by
  have hzero : (0 : BreadInt).val = 0 := rfl
  have hone : (1 : BreadInt).val = 1 := rfl
  have hlength : progressionLength 0 n.val 1 = n.val.toNat := by
    rw [progressionLength, if_pos (by decide), Int.ediv_one]
    omega
  rw [RangeFits, hzero, hone, hlength]
  simp only [rangeTerm, hzero, hone, zero_add, mul_one, BreadArray.maxLength]
  constructor
  · rintro (hnone | ⟨_, hroom, _⟩)
    · omega
    · omega
  · intro hle
    by_cases hpos : n.val.toNat = 0
    · exact .inl hpos
    · have hint : IsInt32 (n.val.toNat : ℤ) := by
        rw [IsInt32, intMin, intMax]
        omega
      refine .inr ⟨fun k hk => ?_, by omega, hint.isInt64, ?_⟩
      · rw [IsInt32, intMin, intMax] at hint ⊢
        omega
      · rw [toInt_eq_self_iff.mpr hint, Precedes, if_pos (by decide)]
        omega

/-- **The array of a range.**  For every start, end and step other than zero,
`bread_range_create` ends and returns the terms that lie before the end, without overflow,
exactly when the range is empty or fits. -/
theorem rangeCreate_meets_iff (start stop step : BreadInt) (hstep : step.val ≠ 0) :
    RangeMeets start stop step ↔ RangeFits start stop step := by
  cases hempty : isEmptyRange start stop step with
  | true =>
      have hlength := (isEmptyRange_iff hstep).mp hempty
      exact ⟨fun _ => .inl hlength, fun _ => meets_of_isEmptyRange hstep hempty⟩
  | false =>
      have hsome : progressionLength start.val stop.val step.val ≠ 0 := by
        intro hzero
        rw [(isEmptyRange_iff hstep).mpr hzero] at hempty
        cases hempty
      rw [meets_iff_appends hstep hempty]
      constructor
      · rintro ⟨xs, happends, hxs⟩
        exact (appends_iff_fits hstep hsome ((isProgression_iff hstep).mp hxs)).mp happends
      · intro hfits
        obtain ⟨xs, hxs⟩ := exists_terms (hfits.resolve_left hsome).1
        exact ⟨xs, (appends_iff_fits hstep hsome hxs).mpr hfits, (isProgression_iff hstep).mpr hxs⟩

theorem rangeCreate_meets_down : RangeMeets 7 2 (BreadInt.wrap (-2)) ↔
    RangeFits 7 2 (BreadInt.wrap (-2)) :=
  rangeCreate_meets_iff 7 2 (BreadInt.wrap (-2)) (by decide)

/-- The range of the single term `2 ^ 31` starts at `-2 ^ 31` instead. -/
theorem rangeCreate_not_meets :
    ¬RangeMeets (BreadInt.wrap (2 ^ 31)) (BreadInt.wrap (2 ^ 31 + 1)) 1 := by
  intro h
  have hstart := isInt32_start_of_meets (by decide) (by decide) h
  exact absurd hstart (by decide)

end BreadLang
