import Mathlib.Algebra.Ring.Int.Defs
import Mathlib.Algebra.Ring.Nat
import Mathlib.Data.List.Basic
import Mathlib.Data.List.TakeWhile

/-!
# Runtime values, errors and undefined behaviour

The vocabulary every other module shares: the type tags of `VarType`, the
tagged union `BreadValue`, the error records of the runtime, and the outcome of
a C function.

A C function can end in three ways that a caller can tell apart.  It returns;
it has undefined behaviour (an access out of bounds, an overflow of a signed
`int`); or it reports one of the errors for which `bread_error_set` aborts the
process.  `Exec` is the monad of the first with the other two as exceptions.
The errors that `bread_error_set` only records do not stop the function, so a
model returns them next to its result.

### Representation choices

A `char` is a `Char`, and a string is the list of its characters.  A 64-bit
integer carries the proof that it fits.  A `double` is its bit pattern, so that
values have decidable equality.  Objects of the heap other than strings are
references.
-/

namespace BreadLang

/-! ### Type tags and values -/

/-- `VarType`, in the order of the enumeration. -/
inductive VarType where
  | typeString
  | typeInt
  | typeBool
  | typeFloat
  | typeDouble
  | typeArray
  | typeDict
  | typeOptional
  | typeStruct
  | typeClass
  | typeNil
  deriving DecidableEq

/-- The number `%d` prints for a tag. -/
def VarType.code : VarType → ℕ
  | .typeString => 0
  | .typeInt => 1
  | .typeBool => 2
  | .typeFloat => 3
  | .typeDouble => 4
  | .typeArray => 5
  | .typeDict => 6
  | .typeOptional => 7
  | .typeStruct => 8
  | .typeClass => 9
  | .typeNil => 10

/-- The bytes of a `BreadString`. -/
abbrev BreadString := List Char

/-- The address of an object of the heap. -/
abbrev Ref := ℕ

/-- An `int64_t`. -/
structure BreadInt where
  val : ℤ
  isInt64 : -2 ^ 63 ≤ val ∧ val < 2 ^ 63
  deriving DecidableEq

/-- Two's complement reduction of an integer to 64 bits. -/
def BreadInt.wrap (n : ℤ) : BreadInt where
  val := n.bmod (2 ^ 64)
  isInt64 := by
    have hlow := Int.le_bmod (x := n) (m := 2 ^ 64) (by decide)
    have hhigh := Int.bmod_lt (x := n) (m := 2 ^ 64) (by decide)
    omega

instance (n : ℕ) : OfNat BreadInt n := ⟨BreadInt.wrap n⟩

/-- The bit pattern of a `double`. -/
structure DoubleBits where
  bits : UInt64
  deriving DecidableEq

/-- `BreadValue`: a tag and the member of the union it selects. -/
inductive BreadValue where
  | nil
  | string (s : BreadString)
  | int (n : BreadInt)
  | bool (b : Bool)
  | double (d : DoubleBits)
  | array (r : Ref)
  | dict (r : Ref)
  | optional (r : Ref)
  | struct (r : Ref)
  | class (r : Ref)
  deriving DecidableEq

/-- The tag of a value. -/
def BreadValue.type : BreadValue → VarType
  | .string _ => .typeString
  | .int _ => .typeInt
  | .bool _ => .typeBool
  | .double _ => .typeDouble
  | .array _ => .typeArray
  | .dict _ => .typeDict
  | .optional _ => .typeOptional
  | .struct _ => .typeStruct
  | .class _ => .typeClass
  | .nil => .typeNil

/-- The terminator of a C string. -/
def nul : Char := Char.ofNat 0

/-- What `strcmp` and the other C string functions see of a string: everything
before its first NUL. -/
def cString (s : BreadString) : BreadString :=
  s.takeWhile (· != nul)

theorem cString_of_notMem {s : BreadString} (h : nul ∉ s) : cString s = s := by
  rw [cString, List.takeWhile_eq_self_iff]
  intro c hc
  simpa using fun heq : c = nul => h (heq ▸ hc)

/-! ### Comparing doubles -/

/-- Whether the bit pattern is that of a NaN. -/
def DoubleBits.isNaN (d : DoubleBits) : Bool :=
  0x7FF0000000000000 < d.bits &&& 0x7FFFFFFFFFFFFFFF

/-- Whether the bit pattern is that of a zero of either sign. -/
def DoubleBits.isZero (d : DoubleBits) : Bool :=
  d.bits <<< 1 == 0

/-- `==` on doubles: NaN equals nothing, and the two zeros are equal. -/
def doubleEq (a b : DoubleBits) : Bool :=
  !a.isNaN && !b.isNaN && (a == b || (a.isZero && b.isZero))

/-! ### Errors -/

/-- `BreadErrorType`. -/
inductive BreadErrorType where
  | none
  | typeMismatch
  | indexOutOfBounds
  | divisionByZero
  | undefinedVariable
  | memoryAllocation
  | runtimeError
  | syntaxError
  | parseError
  | compileError
  deriving DecidableEq

/-- The part of a `BreadError` that does not depend on where in the C sources
it is raised. -/
structure BreadError where
  type : BreadErrorType
  message : String
  deriving DecidableEq

/-- The errors on which `bread_error_set` aborts the process. -/
def BreadErrorType.isFatal : BreadErrorType → Bool
  | .runtimeError | .indexOutOfBounds | .divisionByZero | .memoryAllocation => true
  | _ => false

/-- The undefined behaviours the modelled code can run into. -/
inductive UndefinedBehavior where
  | outOfBounds
  | signedOverflow
  | divisionTrap
  | nullDereference
  | useAfterFree
  deriving DecidableEq

/-- Why a C function does not return. -/
inductive Stop where
  | undefined (u : UndefinedBehavior)
  | abort (e : BreadError)
  deriving DecidableEq

/-- The outcome of a C function. -/
abbrev Exec := Except Stop

/-- A sequence of two steps returns exactly when both do. -/
theorem bind_eq_ok {ε α β : Type} {x : Except ε α} {f : α → Except ε β} {b : β} :
    (x >>= f) = .ok b ↔ ∃ a, x = .ok a ∧ f a = .ok b := by
  cases x with
  | error e => simp [bind, Except.bind]
  | ok a => simp [bind, Except.bind]

theorem map_eq_ok {ε α β : Type} {x : Except ε α} {f : α → β} {b : β} :
    f <$> x = .ok b ↔ ∃ a, x = .ok a ∧ f a = b := by
  cases x with
  | error e => simp [Functor.map, Except.map]
  | ok a => simp [Functor.map, Except.map]

/-! ### The arithmetic of `int` -/

/-- `INT_MAX`. -/
def intMax : ℤ := 2 ^ 31 - 1

/-- `INT_MIN`. -/
def intMin : ℤ := -2 ^ 31

/-- The result of an operation on `int`, which must be representable. -/
def checkedInt (x : ℤ) : Exec ℤ :=
  if intMin ≤ x ∧ x ≤ intMax then .ok x else .error (.undefined .signedOverflow)

theorem checkedInt_of_mem {x : ℤ} (h : intMin ≤ x ∧ x ≤ intMax) :
    checkedInt x = .ok x := by
  rw [checkedInt, if_pos h]

/-- The value of an `int` after its conversion to `unsigned`. -/
def toUnsigned (x : ℤ) : ℕ :=
  (x % 2 ^ 32).toNat

theorem toUnsigned_of_mem {x : ℤ} (h₀ : 0 ≤ x) (h : x ≤ intMax) :
    toUnsigned x = x.toNat := by
  rw [toUnsigned, Int.emod_eq_of_lt h₀]
  rw [intMax] at h
  omega

end BreadLang
