import BreadLang.Core.Value

/-!
# Arrays

The dynamic array of the runtime, as far as the dictionary needs it: an array
with a declared element type, and appending to it.
-/

namespace BreadLang

/-- `BreadArray`, without its object header.  `items` are the first `count`
elements of the buffer, whose size is `capacity`. -/
structure BreadArray where
  count : ℤ
  capacity : ℤ
  elementType : VarType
  items : List BreadValue
  deriving DecidableEq

namespace BreadArray

/-- `bread_array_new_typed`. -/
def newTyped (elementType : VarType) : BreadArray where
  count := 0
  capacity := 0
  elementType := elementType
  items := []

/-- `a->capacity == 0 ? 8 : a->capacity * 2`. -/
def grownCapacity (a : BreadArray) : Exec ℤ :=
  if a.capacity = 0 then .ok 8 else checkedInt (a.capacity * 2)

/-- The growth step of `bread_array_append`. -/
def growIfFull (a : BreadArray) : Exec BreadArray :=
  if a.capacity ≤ a.count then do
    let newCap ← a.grownCapacity
    return { a with capacity := newCap }
  else .ok a

/-- An empty array without an element type takes that of its first element. -/
def adoptType (a : BreadArray) (v : BreadValue) : BreadArray :=
  { a with
    elementType :=
      if a.elementType = .typeNil ∧ a.count = 0 then v.type else a.elementType }

/-- `bread_array_append`.  It returns 0 for a value of another type than the
array's. -/
def append (a : BreadArray) (v : BreadValue) : Exec (BreadArray × Bool) :=
  if a.elementType ≠ VarType.typeNil ∧ a.elementType ≠ v.type then .ok (a, false)
  else do
    let a ← (a.adoptType v).growIfFull
    return ({ a with items := a.items ++ [v], count := a.count + 1 }, true)

/-! ### Appending values of one type -/

/-- The most elements an array can hold before doubling its capacity overflows
an `int`. -/
def maxLength : ℕ := 2 ^ 30

/-- The invariant of an array that only grows by appending: its capacity is
zero, or a power of two that no `int` overflows. -/
structure Inv (a : BreadArray) : Prop where
  count_eq : a.count = a.items.length
  capacity_eq : a.capacity = 0 ∨
    ∃ k, 3 ≤ k ∧ k ≤ 30 ∧ a.capacity = ((2 ^ k : ℕ) : ℤ)
  fits : a.count ≤ a.capacity

theorem newTyped_inv (elementType : VarType) : (newTyped elementType).Inv where
  count_eq := rfl
  capacity_eq := Or.inl rfl
  fits := Int.le_refl 0

private theorem Inv.growIfFull_spec {a : BreadArray} (ha : a.Inv)
    (hroom : a.items.length < maxLength) :
    ∃ c, a.growIfFull = .ok { a with capacity := c } ∧ a.count < c ∧
      ∃ k, 3 ≤ k ∧ k ≤ 30 ∧ c = ((2 ^ k : ℕ) : ℤ) := by
  have hcount := ha.count_eq
  have hfits := ha.fits
  rcases ha.capacity_eq with hzero | ⟨k, hk, hk30, hcap⟩
  · rw [growIfFull, if_pos (by omega), grownCapacity, if_pos hzero]
    exact ⟨8, rfl, by omega, 3, by omega, by omega, rfl⟩
  · by_cases hfull : a.capacity ≤ a.count
    · have hpos : 0 < 2 ^ k := Nat.two_pow_pos k
      -- a full array of the largest capacity holds `maxLength` elements
      have hlt : k < 30 := by
        by_contra hge
        have heq : k = 30 := by omega
        rw [heq] at hcap
        rw [maxLength] at hroom
        omega
      have hpow : 2 ^ k ≤ 2 ^ 29 := Nat.pow_le_pow_right (by omega) (by omega)
      have hmax : a.capacity * 2 ≤ intMax := by
        rw [intMax]
        omega
      rw [growIfFull, if_pos hfull, grownCapacity, if_neg (by omega),
        checkedInt_of_mem ⟨by rw [intMin]; omega, hmax⟩]
      refine ⟨a.capacity * 2, rfl, by omega, k + 1, by omega, by omega, ?_⟩
      rw [hcap, Nat.pow_succ]
      push_cast
      rfl
    · rw [growIfFull, if_neg hfull]
      exact ⟨a.capacity, rfl, by omega, k, hk, hk30, hcap⟩

/-- **Appending a value of the array's type** succeeds. -/
theorem Inv.append_spec {a : BreadArray} (ha : a.Inv) {v : BreadValue}
    (htype : a.elementType = .typeNil ∨ a.elementType = v.type)
    (hroom : a.items.length < maxLength) :
    ∃ a', a.append v = .ok (a', true) ∧ a'.Inv ∧ a'.items = a.items ++ [v] ∧
      (a'.elementType = a.elementType ∨ a'.elementType = v.type) := by
  have hmatch : ¬ (a.elementType ≠ VarType.typeNil ∧ a.elementType ≠ v.type) := by
    rintro ⟨hn, hv⟩
    rcases htype with h | h
    · exact hn h
    · exact hv h
  have hinv₁ : (a.adoptType v).Inv := ⟨ha.count_eq, ha.capacity_eq, ha.fits⟩
  obtain ⟨c, hgrow, hlt, hc⟩ := hinv₁.growIfFull_spec hroom
  refine ⟨{ a.adoptType v with
    capacity := c, items := a.items ++ [v], count := a.count + 1 }, ?_,
    ⟨?_, Or.inr hc, ?_⟩, rfl, ?_⟩
  · rw [append, if_neg hmatch, hgrow]
    rfl
  · simp [ha.count_eq]
  · have hlt' : a.count < c := hlt
    show a.count + 1 ≤ c
    omega
  · simp only [adoptType]
    split
    · exact Or.inr rfl
    · exact Or.inl rfl

end BreadArray
end BreadLang
