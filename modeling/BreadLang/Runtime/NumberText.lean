import BreadLang.Library.Decimal
import BreadLang.Runtime.IntegerOps

/-!
# Texts of values

`str`, `toString` and `int`.  The texts of an integer are its decimal form, on both ways;
`int` reads a text with `strtol`, as a `long`, and then tests for the range of `int`.
-/

namespace BreadLang

open Decimal

/-- What the conversions get from elsewhere: the text of a double (`%g` and `%.6g`), its
conversion to `int` and whether it is an `int`, the values in optionals, and the names of the
types of structs and classes. -/
structure TextOps where
  doubleText : DoubleBits → BreadString
  doubleToInt : DoubleBits → BreadInt
  isIntValued : DoubleBits → Bool
  content : Ref → Option BreadValue
  structName : Ref → Option BreadString
  className : Ref → Option BreadString

/-- `bread_value_set_string`, of a C string. -/
def setString (s : BreadString) : BreadValue :=
  .string (cString s)

/-- `snprintf` to a buffer of 256 bytes, and `bread_value_set_string` of the buffer. -/
def setBuffer (s : BreadString) : BreadValue :=
  setString (s.take 255)

/-- A runtime error, which ends the process. -/
def textAbort (message : BreadString) : Exec BreadValue :=
  .error (.abort ⟨.runtimeError, String.ofList message⟩)

/-- `bread_builtin_str`. -/
def breadBuiltinStr (ops : TextOps) (args : List BreadValue) : Exec BreadValue :=
  match args with
  | [.nil] => .ok (setString "nil".toList)
  | [.bool b] => .ok (setString (if b then "true".toList else "false".toList))
  | [.int n] => .ok (setBuffer (text n.val))
  | [.double d] =>
      .ok (setBuffer (if ops.isIntValued d then text (ops.doubleToInt d).val else ops.doubleText d))
  | [.string s] => .ok (setString s)
  | [.array _] => .ok (setString "[array]".toList)
  | [.dict _] => .ok (setString "\x7bdict\x7d".toList)
  | [.optional _] => .ok (setString "optional".toList)
  | [.struct r] =>
      .ok ((ops.structName r).elim (setString "struct".toList) fun name =>
        setBuffer (cString name ++ "\x7b\x7d".toList))
  | [.class r] =>
      .ok ((ops.className r).elim (setString "class".toList) fun name =>
        setBuffer (cString name ++ "\x7b\x7d".toList))
  | _ => textAbort "str() expects 1 argument".toList

/-- `convert_to_string`: the value in `out`, where the type has a text. -/
def convertToString (ops : TextOps) : BreadValue → Option BreadValue
  | .string s => some (setString s)
  | .int n => some (setBuffer (text n.val))
  | .bool b => some (setBuffer (if b then "true".toList else "false".toList))
  | .double d => some (setBuffer (ops.doubleText d))
  | .nil => some (setBuffer "nil".toList)
  | _ => none

/-- `toString` in `bread_method_call_op`, behind the optional chaining: the value in `out`. -/
def toStringMethod (ops : TextOps) (argc : ℕ) (target : BreadValue) : Exec BreadValue :=
  if argc ≠ 0 then textAbort "toString() expects 0 arguments".toList
  else
    match convertToString ops target with
    | some value => .ok value
    | none => textAbort "toString() not supported for this type".toList

/-- `bread_method_call_op` with the name `toString`.  With optional chaining, nil and an
optional without a value give nil. -/
def methodCallToString (ops : TextOps) (isOpt : Bool) (argc : ℕ) : BreadValue → Exec BreadValue
  | .nil => if isOpt then .ok .nil else toStringMethod ops argc .nil
  | .optional r =>
      if isOpt then
        match ops.content r with
        | some value => toStringMethod ops argc value
        | none => .ok .nil
      else toStringMethod ops argc (.optional r)
  | target => toStringMethod ops argc target

/-- The string case of `bread_builtin_int`. -/
def intOfString (s : BreadString) : Exec BreadValue :=
  let parsed := strtol (-2 ^ 63) (2 ^ 63 - 1) (cString s)
  if parsed.2 = [] ∧ intMin ≤ parsed.1 ∧ parsed.1 ≤ intMax then .ok (.int (.wrap parsed.1))
  else
    textAbort
      (("Cannot convert string '".toList ++ cString s ++ "' to int".toList).take 255)

/-- `bread_builtin_int`. -/
def breadBuiltinInt (ops : TextOps) (args : List BreadValue) : Exec BreadValue :=
  match args with
  | [.int n] => .ok (.int n)
  | [.double d] => .ok (.int (ops.doubleToInt d))
  | [.bool b] => .ok (.int (if b then 1 else 0))
  | [.string s] => intOfString s
  | [_] => textAbort "Cannot convert this type to int".toList
  | _ => textAbort "int() expects 1 argument".toList

/-! ## The round trip -/

variable {ops : TextOps}

/-- The texts that an integer is converted to are one, and are read as the integer. -/
structure TextRoundTrip (ops : TextOps) (n : BreadInt) (s : BreadString) : Prop where
  str : breadBuiltinStr ops [.int n] = .ok (.string s)
  toString : ∀ isOpt, methodCallToString ops isOpt 0 (.int n) = .ok (.string s)
  int : breadBuiltinInt ops [.string s] = .ok (.int n)

theorem cString_text (n : ℤ) : cString (text n) = text n :=
  cString_of_notMem (notMem_text (by decide) (by decide))

/-- The text of a 64-bit integer fits into the buffer. -/
theorem setBuffer_text (n : BreadInt) : setBuffer (text n.val) = .string (text n.val) := by
  have hlen : (text n.val).length ≤ 19 + 1 := by
    have hn := n.isInt64
    apply length_text_le (by decide)
    omega
  rw [setBuffer, setString, List.take_of_length_le (by omega), cString_text]

theorem breadBuiltinStr_int (n : BreadInt) :
    breadBuiltinStr ops [.int n] = .ok (.string (text n.val)) := by
  rw [← setBuffer_text]
  rfl

theorem methodCallToString_int (isOpt : Bool) (n : BreadInt) :
    methodCallToString ops isOpt 0 (.int n) = .ok (.string (text n.val)) := by
  rw [← setBuffer_text]
  rfl

/-- What `int` gives for the text of a 64-bit integer. -/
theorem intOfString_text (n : BreadInt) : intOfString (text n.val) =
    if intMin ≤ n.val ∧ n.val ≤ intMax then .ok (.int n)
    else textAbort
      (("Cannot convert string '".toList ++ text n.val ++ "' to int".toList).take 255) := by
  have hn := n.isInt64
  have hclamp : clamp (-2 ^ 63) (2 ^ 63 - 1) n.val = n.val := clamp_of_mem (by omega)
  have hwrap : BreadInt.wrap n.val = n := by
    have hval := BreadInt.val_wrap hn
    cases n
    simpa [BreadInt.wrap] using hval
  rw [intOfString, cString_text, strtol_text, hclamp, hwrap]
  simp

theorem TextRoundTrip.isInt {n : BreadInt} {s : BreadString} (h : TextRoundTrip ops n s) :
    intMin ≤ n.val ∧ n.val ≤ intMax := by
  have hs : s = text n.val := by
    have hstr := h.str
    rw [breadBuiltinStr_int] at hstr
    injection hstr with hstr
    injection hstr with hstr
    exact hstr.symm
  subst hs
  have hint : intOfString (text n.val) = .ok (.int n) := h.int
  rw [intOfString_text] at hint
  by_contra hrange
  rw [if_neg hrange] at hint
  exact absurd hint (by simp [textAbort])

/-- **The text of an integer is read back exactly when the integer is an `int`.** -/
theorem textRoundTrip_iff (ops : TextOps) (n : BreadInt) :
    (∃ s, TextRoundTrip ops n s) ↔ intMin ≤ n.val ∧ n.val ≤ intMax := by
  constructor
  · rintro ⟨s, h⟩
    exact h.isInt
  · intro hrange
    refine ⟨text n.val, breadBuiltinStr_int n, fun isOpt => methodCallToString_int isOpt n, ?_⟩
    show intOfString (text n.val) = .ok (.int n)
    rw [intOfString_text, if_pos hrange]

/-- Conversions without doubles and objects. -/
def noTextOps : TextOps :=
  ⟨fun _ => [], fun _ => 0, fun _ => false, fun _ => none, fun _ => none, fun _ => none⟩

/-- The least integer that is too large for an `int`. -/
theorem twoPow31_not_read_back : ¬ ∃ s, TextRoundTrip noTextOps ⟨2147483648, by decide⟩ s := by
  rintro ⟨s, h⟩
  exact absurd h.isInt.2 (by decide)

end BreadLang
