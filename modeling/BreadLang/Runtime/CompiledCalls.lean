import BreadLang.Runtime.ClassObject
import Mathlib.Tactic.IntervalCases

/-!
# Calls of compiled functions

A compiled method or constructor is called through a pointer whose type has one
parameter for each argument, so the runtime has a case for every number of
arguments up to three.  Any other number falls through to the default, which
reports success and calls nothing.

The functions below record the calls they make.  What a compiled function does
is a parameter, `CompiledCode`.  `nothingDropped_iff` says when a reported
success means that the function has run, over the four functions that end in
such a call.
-/

namespace BreadLang

variable {F : Type}

/-- The objects of the heap that are classes. -/
abbrev ClassHeap (F : Type) := Ref → ClassObject F

/-- What the compiled functions do: what they write to their return slot, and what
they make of the objects. -/
abbrev CompiledCode (F : Type) :=
  F → Ref → List BreadValue → ClassHeap F → BreadValue × ClassHeap F

/-- One call of a compiled function. -/
structure Invocation (F : Type) where
  fn : F
  self : Ref
  args : List BreadValue
  deriving DecidableEq

/-- The objects, and the calls made so far. -/
structure CallState (F : Type) where
  objects : ClassHeap F
  invocations : List (Invocation F)

/-- A function that makes calls.  Its result is `some out` where it returns one,
and `none` where it returns zero. -/
abbrev CallM (F : Type) := StateM (CallState F)

section Calls

variable (code : CompiledCode F)

/-- A call through the pointer. -/
def invoke (fn : F) (self : Ref) (args : List BreadValue) : CallM F BreadValue :=
  fun s =>
    let (ret, objects) := code fn self args s.objects
    (ret, ⟨objects, s.invocations ++ [⟨fn, self, args⟩]⟩)

/-- `bread_class_call_compiled_method`.  The arguments are a pointer, of which the
first `argc` are given. -/
def callCompiled (fn : F) (self : Ref) (argc : ℤ) (args : ℕ → BreadValue) : CallM F (Option BreadValue) :=
  match argc with
  | 0 => some <$> invoke code fn self []
  | 1 => some <$> invoke code fn self [args 0]
  | 2 => some <$> invoke code fn self [args 0, args 1]
  | 3 => some <$> invoke code fn self [args 0, args 1, args 2]
  | _ => pure (some .nil)

/-- `cg_execute_compiled_method`.  The clone that it stores is the value itself. -/
def cgExecuteCompiledMethod (fn : Option F) (self : Ref) (argc : ℤ) (args : ℕ → BreadValue) :
    CallM F (Option BreadValue) :=
  match fn with
  | none => pure none
  | some fn =>
      match argc with
      | 0 => some <$> invoke code fn self []
      | 1 => some <$> invoke code fn self [args 0]
      | 2 => some <$> invoke code fn self [args 0, args 1]
      | 3 => some <$> invoke code fn self [args 0, args 1, args 2]
      | _ => pure (some .nil)

/-- The arguments that a function may read. -/
def argList (argc : ℤ) (args : ℕ → BreadValue) : List BreadValue :=
  (List.range argc.toNat).map args

/-- The default constructor of an object. -/
def defaultConstructor (self : Ref) (argc : ℤ) (args : ℕ → BreadValue) :
    CallM F (Option BreadValue) :=
  fun s =>
    let c := s.objects self
    let c := c.setFieldsByPosition c.fieldNames (argList argc args)
    (some .nil, { s with objects := Function.update s.objects self c })

/-- `bread_class_execute_constructor`. -/
def executeConstructor (self : Ref) (argc : ℤ) (args : ℕ → BreadValue) :
    CallM F (Option BreadValue) :=
  fun s =>
    match (s.objects self).compiledConstructor with
    | some fn => callCompiled code fn self argc args s
    | none => defaultConstructor self argc args s

/-- The name of the constructor. -/
def initName : Ident := "init".toList

/-- `bread_class_execute_method_direct`. -/
def executeMethod (definingClass : ClassObject F) (index : ℤ) (self : Ref) (argc : ℤ)
    (args : ℕ → BreadValue) : CallM F (Option BreadValue) :=
  if index < 0 ∨ (definingClass.methodNames.length : ℤ) ≤ index then pure none
  else if definingClass.methodNames[index.toNat]? = some initName then
    executeConstructor code self argc args
  else
    match definingClass.compiledMethod index.toNat with
    | some fn => callCompiled code fn self argc args
    | none => pure none

end Calls

/-- A call of one of the four functions, without the arguments. -/
inductive CompiledCall (F : Type) where
  | callCompiled (fn : F) (self : Ref)
  | executeConstructor (self : Ref)
  | executeMethod (definingClass : ClassObject F) (index : ℤ) (self : Ref)
  | cgExecuteCompiledMethod (fn : F) (self : Ref)

namespace CompiledCall

/-- The object that the call is about. -/
def self : CompiledCall F → Ref
  | callCompiled _ self => self
  | executeConstructor self => self
  | executeMethod _ _ self => self
  | cgExecuteCompiledMethod _ self => self

/-- The call itself. -/
def run (code : CompiledCode F) (argc : ℤ) (args : ℕ → BreadValue) : CompiledCall F → CallM F (Option BreadValue)
  | callCompiled fn self => BreadLang.callCompiled code fn self argc args
  | executeConstructor self => BreadLang.executeConstructor code self argc args
  | executeMethod definingClass index self =>
      BreadLang.executeMethod code definingClass index self argc args
  | cgExecuteCompiledMethod fn self =>
      BreadLang.cgExecuteCompiledMethod code (some fn) self argc args

/-- The compiled function that is set on the class for this call: for a method
called `init` the constructor of the instance, or else what the class has compiled
under that name. -/
def compiled (objects : ClassHeap F) : CompiledCall F → Option F
  | callCompiled fn _ => some fn
  | executeConstructor self => (objects self).compiledConstructor
  | executeMethod definingClass index self =>
      if index < 0 ∨ (definingClass.methodNames.length : ℤ) ≤ index then none
      else if definingClass.methodNames[index.toNat]? = some initName then
        (objects self).compiledConstructor.or (definingClass.compiledMethod index.toNat)
      else definingClass.compiledMethod index.toNat
  | cgExecuteCompiledMethod fn _ => some fn

/-- A method called `init` runs the constructor of the instance, which has one. -/
def HasConstructor (objects : ClassHeap F) : CompiledCall F → Prop
  | executeMethod definingClass index self =>
      definingClass.methodNames[index.toNat]? = some initName →
        (objects self).compiledConstructor.isSome
  | _ => True

end CompiledCall

/-- **A reported success means that the function has run**, once, on the object and
the arguments, and that `out` holds what it returned. -/
def NothingDropped (code : CompiledCode F) (fn : F) (self : Ref) (args : List BreadValue)
    (before : CallState F) (after : Option BreadValue × CallState F) : Prop :=
  ∀ out, after.1 = some out →
    after.2.invocations = before.invocations ++ [⟨fn, self, args⟩] ∧
      out = (code fn self args before.objects).1

/-- A success without a call drops it. -/
theorem not_nothingDropped {code : CompiledCode F} {fn : F} {self : Ref} {out : BreadValue}
    {args : List BreadValue} {before : CallState F} {after : Option BreadValue × CallState F}
    (hsuccess : after.1 = some out) (hsame : after.2.invocations = before.invocations) :
    ¬ NothingDropped code fn self args before after := by
  intro h
  have hinvoked := (h out hsuccess).1
  simp [hsame] at hinvoked

/-- **The function runs once** and its result is the result of the call. -/
def RunsOnce (code : CompiledCode F) (fn : F) (self : Ref) (args : List BreadValue)
    (before : CallState F) (after : Option BreadValue × CallState F) : Prop :=
  after.1 = some (code fn self args before.objects).1 ∧
    after.2.invocations = before.invocations ++ [⟨fn, self, args⟩]

section Calls

variable (code : CompiledCode F) {fn : F} {self : Ref} {argc : ℤ} {args : ℕ → BreadValue}

/-- A call with at most three arguments is made. -/
theorem callCompiled_of_le (h : 0 ≤ argc ∧ argc ≤ 3) :
    callCompiled code fn self argc args = some <$> invoke code fn self (argList argc args) := by
  obtain ⟨hlow, hhigh⟩ := h
  interval_cases argc <;> rfl

/-- A call with another number of arguments is reported as made. -/
theorem callCompiled_of_not (h : ¬ (0 ≤ argc ∧ argc ≤ 3)) :
    callCompiled code fn self argc args = pure (some .nil) := by
  unfold callCompiled
  split
  · omega
  · omega
  · omega
  · omega
  · rfl

/-- A call through the switch runs the function exactly when it has up to three
arguments. -/
theorem callCompiled_runsOnce_iff (s : CallState F) :
    RunsOnce code fn self (argList argc args) s (callCompiled code fn self argc args s) ↔
      0 ≤ argc ∧ argc ≤ 3 := by
  by_cases h : 0 ≤ argc ∧ argc ≤ 3
  · rw [callCompiled_of_le code h]
    exact iff_of_true ⟨rfl, rfl⟩ h
  · rw [callCompiled_of_not code h]
    refine iff_of_false (fun hruns => ?_) h
    have hinvoked : s.invocations = s.invocations ++ [⟨fn, self, argList argc args⟩] := hruns.2
    simp at hinvoked

/-- **A call through the switch drops nothing exactly when it has up to three
arguments.** -/
theorem callCompiled_nothingDropped_iff (s : CallState F) :
    NothingDropped code fn self (argList argc args) s (callCompiled code fn self argc args s) ↔
      0 ≤ argc ∧ argc ≤ 3 := by
  by_cases h : 0 ≤ argc ∧ argc ≤ 3
  · rw [callCompiled_of_le code h]
    refine iff_of_true ?_ h
    rintro out ⟨⟩
    exact ⟨rfl, rfl⟩
  · rw [callCompiled_of_not code h]
    exact iff_of_false (not_nothingDropped rfl rfl) h

variable {code}

/-- The constructor runs when there is one. -/
theorem executeConstructor_of_some {s : CallState F}
    (h : (s.objects self).compiledConstructor = some fn) :
    executeConstructor code self argc args s = callCompiled code fn self argc args s := by
  simp only [executeConstructor, h]

/-- Without a constructor the fields are set, and nothing runs. -/
theorem executeConstructor_of_none {s : CallState F}
    (h : (s.objects self).compiledConstructor = none) :
    executeConstructor code self argc args s = defaultConstructor self argc args s := by
  simp only [executeConstructor, h]

/-- A method that is not called `init` runs what has been compiled for it. -/
theorem executeMethod_of_compiled {definingClass : ClassObject F} {index : ℤ} {s : CallState F}
    (hrange : ¬ (index < 0 ∨ (definingClass.methodNames.length : ℤ) ≤ index))
    (hname : definingClass.methodNames[index.toNat]? ≠ some initName)
    (hfn : definingClass.compiledMethod index.toNat = some fn) :
    executeMethod code definingClass index self argc args s =
      callCompiled code fn self argc args s := by
  simp only [executeMethod, if_neg hrange, if_neg hname, hfn]

/-- A method that is called `init` is the constructor of the object. -/
theorem executeMethod_of_init {definingClass : ClassObject F} {index : ℤ} {s : CallState F}
    (hrange : ¬ (index < 0 ∨ (definingClass.methodNames.length : ℤ) ≤ index))
    (hname : definingClass.methodNames[index.toNat]? = some initName) :
    executeMethod code definingClass index self argc args s =
      executeConstructor code self argc args s := by
  simp only [executeMethod, if_neg hrange, if_pos hname]

/-- A constructor that is set is not dropped when it gets up to three arguments. -/
theorem executeConstructor_nothingDropped_iff {s : CallState F}
    (h : (s.objects self).compiledConstructor = some fn) :
    NothingDropped code fn self (argList argc args) s
        (executeConstructor code self argc args s) ↔ 0 ≤ argc ∧ argc ≤ 3 := by
  rw [executeConstructor_of_some h]
  exact callCompiled_nothingDropped_iff code s

variable (code)

/-- **No call is dropped exactly when there are at most three arguments**, and a
method called `init` finds the constructor that it stands for. -/
theorem nothingDropped_iff (call : CompiledCall F) (argc : ℤ) (args : ℕ → BreadValue)
    (s : CallState F) (h : call.compiled s.objects = some fn) :
    NothingDropped code fn call.self (argList argc args) s (call.run code argc args s) ↔
      (0 ≤ argc ∧ argc ≤ 3) ∧ call.HasConstructor s.objects := by
  cases call with
  | callCompiled fn' self =>
      cases h
      exact (callCompiled_nothingDropped_iff code s).trans (and_iff_left trivial).symm
  | cgExecuteCompiledMethod fn' self =>
      cases h
      exact (callCompiled_nothingDropped_iff code s).trans (and_iff_left trivial).symm
  | executeConstructor self =>
      exact (executeConstructor_nothingDropped_iff h).trans (and_iff_left trivial).symm
  | executeMethod definingClass index self =>
      by_cases hrange : index < 0 ∨ (definingClass.methodNames.length : ℤ) ≤ index
      · simp [CompiledCall.compiled, hrange] at h
      by_cases hname : definingClass.methodNames[index.toNat]? = some initName
      · simp only [CompiledCall.compiled, if_neg hrange, if_pos hname] at h
        simp only [CompiledCall.run, CompiledCall.self, CompiledCall.HasConstructor,
          executeMethod_of_init hrange hname, hname, forall_const]
        cases hconstructor : (s.objects self).compiledConstructor with
        | some fn' =>
            rw [hconstructor, Option.some_or] at h
            cases h
            exact (executeConstructor_nothingDropped_iff hconstructor).trans
              (and_iff_left rfl).symm
        | none =>
            -- the class has compiled something under that name, and it is not looked at
            rw [executeConstructor_of_none hconstructor]
            refine iff_of_false (not_nothingDropped rfl rfl) fun hboth => ?_
            exact Bool.false_ne_true hboth.2
      · simp only [CompiledCall.compiled, if_neg hrange, if_neg hname] at h
        simp only [CompiledCall.run, CompiledCall.self, CompiledCall.HasConstructor,
          executeMethod_of_compiled hrange hname h, hname, false_implies, and_true]
        exact callCompiled_nothingDropped_iff code s

end Calls

section Examples

/-- Code in which every function returns its last argument. -/
def lastArgument : CompiledCode ℕ :=
  fun _ _ args objects => (args.getLastD .nil, objects)

/-- A class with one compiled method, which is the function seven. -/
def boxClass : ClassObject ℕ :=
  (ClassObject.newWithMethods "Box".toList none [] ["put".toList]).setCompiledMethod 0 7

/-- The heap holds nothing but instances of the class. -/
def boxes : CallState ℕ := ⟨fun _ => boxClass, []⟩

/-- The arguments one, two, three and so on. -/
def counting (i : ℕ) : BreadValue := .int (BreadInt.wrap (i + 1))

/-- A call of the method with three arguments is made. -/
theorem put_three_nothingDropped :
    NothingDropped lastArgument 7 0 (argList 3 counting) boxes
        ((CompiledCall.executeMethod boxClass 0 0).run lastArgument 3 counting boxes) :=
  (nothingDropped_iff lastArgument (.executeMethod boxClass 0 0) 3 counting boxes rfl).mpr
    ⟨by decide, fun hinit => absurd hinit (by decide)⟩

/-- A call of the method with four arguments is reported as made. -/
theorem put_four_dropped :
    ¬ NothingDropped lastArgument 7 0 (argList 4 counting) boxes
        ((CompiledCall.executeMethod boxClass 0 0).run lastArgument 4 counting boxes) :=
  fun h => List.cons_ne_nil _ _ (h .nil rfl).1.symm

end Examples

end BreadLang
