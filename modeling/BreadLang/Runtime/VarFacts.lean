import BreadLang.Runtime.Vars

/-!
# One name in a stack of scopes

What the runtime calls do to the variables of one name depends on these variables
alone: on the *view* of the stack, which has the variable of that name of each
scope, if it has one.  This module states each call on views.
-/

namespace BreadLang

variable {name : Ident} {scope : VarScope} {scopes : ScopeStack} {value : VarValue}

/-- Conversions for runs that convert nothing. -/
def zeroCasts : NumericCasts where
  intToDouble _ := ⟨0⟩
  floatToDouble _ := ⟨0⟩
  intToFloat _ := ⟨0⟩
  doubleToFloat _ := ⟨0⟩
  doubleToInt _ := 0
  floatToInt _ := 0

/-! ### Views -/

/-- The variables of a name, the innermost scope first. -/
abbrev View := List (Option Variable)

/-- The view of a stack. -/
def ScopeStack.view (name : Ident) (scopes : ScopeStack) : View :=
  scopes.map (·.find name)

/-- The variable that a look-up finds. -/
def View.visible (view : View) : Option Variable :=
  view.findSome? id

/-- The view after a write to the visible variable. -/
def View.set : View → VarValue → View
  | [], _ => []
  | some v :: view, value => some { v with value } :: view
  | none :: view, value => none :: View.set view value

@[simp] theorem ScopeStack.view_nil : ScopeStack.view name [] = [] := rfl

@[simp] theorem ScopeStack.view_cons :
    ScopeStack.view name (scope :: scopes) = scope.find name :: ScopeStack.view name scopes := rfl

variable (name) in
@[simp] theorem ScopeStack.length_view : (ScopeStack.view name scopes).length = scopes.length := by
  rw [ScopeStack.view, List.length_map]

theorem ScopeStack.view_drop (n : ℕ) :
    ScopeStack.view name (scopes.drop n) = (ScopeStack.view name scopes).drop n := by
  rw [ScopeStack.view, ScopeStack.view, List.map_drop]

@[simp] theorem View.visible_nil : View.visible [] = none := rfl

@[simp] theorem View.visible_none (view : View) : View.visible (none :: view) = view.visible := rfl

@[simp] theorem View.visible_some (v : Variable) (view : View) :
    View.visible (some v :: view) = some v := rfl

@[simp] theorem View.length_set (view : View) (value : VarValue) :
    (view.set value).length = view.length := by
  induction view with
  | nil => rfl
  | cons v view ih =>
      cases v with
      | none => rw [View.set, List.length_cons, ih, List.length_cons]
      | some v => rfl

theorem View.visible_set (view : View) (value : VarValue) :
    (view.set value).visible = view.visible.map fun v => { v with value } := by
  induction view with
  | nil => rfl
  | cons v view ih =>
      cases v with
      | none => exact ih
      | some v => rfl

@[simp] theorem View.set_set (view : View) (value value' : VarValue) :
    (view.set value).set value' = view.set value' := by
  induction view with
  | nil => rfl
  | cons v view ih =>
      cases v with
      | none => rw [View.set, View.set, View.set, ih]
      | some v => rfl

/-- Writing the value that a variable has changes nothing. -/
theorem View.set_value {view : View} {v : Variable} (h : view.visible = some v) :
    view.set v.value = view := by
  induction view with
  | nil => rfl
  | cons w view ih =>
      cases w with
      | none => rw [View.set, ih h]
      | some w =>
          cases h
          rfl

/-- A variable that is not the visible one keeps its value. -/
theorem View.visible_eq_of_forall₂_set {view : View} {v : Variable} {value : VarValue}
    (hv : view.visible = some v)
    (h : List.Forall₂ (fun before after => ∀ w, before = some w → after = some w) view
      (view.set value)) : v.value = value := by
  induction view with
  | nil => cases hv
  | cons w view ih =>
      cases w with
      | none =>
          rw [View.set, List.forall₂_cons] at h
          exact ih hv h.2
      | some w =>
          cases hv
          rw [View.set, List.forall₂_cons] at h
          have heq := h.1 v rfl
          rw [Option.some.injEq] at heq
          exact (congrArg Variable.value heq).symm

/-! ### Names and scopes -/

theorem VarScope.name_of_find {v : Variable} (h : scope.find name = some v) : v.name = name := by
  have := List.find?_some h
  simpa using this

theorem VarScope.find_set (scope : VarScope) (name : Ident) (value : VarValue) :
    (scope.set name value).find name = (scope.find name).map fun v => { v with value } := by
  induction scope with
  | nil => rfl
  | cons v scope ih =>
      by_cases h : v.name = name
      · rw [VarScope.set, if_pos h, VarScope.find, VarScope.find, List.find?_cons_of_pos (by simpa),
          List.find?_cons_of_pos (by simpa)]
        rfl
      · rw [VarScope.set, if_neg h, VarScope.find, VarScope.find, List.find?_cons_of_neg (by simpa),
          List.find?_cons_of_neg (by simpa)]
        exact ih

theorem VarScope.find_append_of_none {v : Variable} (h : scope.find name = none)
    (hv : v.name = name) : VarScope.find (scope ++ [v]) name = some v := by
  rw [VarScope.find] at h ⊢
  rw [List.find?_append, h]
  simp [hv]

/-! ### The runtime calls -/

theorem getVariable_eq (hname : isVariableName name = true) :
    getVariable scopes name = (ScopeStack.view name scopes).visible := by
  rw [getVariable, if_pos hname, View.visible, ScopeStack.view, List.findSome?_map]
  rfl

theorem getVariable_of_not (hname : isVariableName name = false) :
    getVariable scopes name = none := by
  rw [getVariable, hname]
  rfl

/-- A name is declared in one scope of the stack when it is visible. -/
theorem isVariableName_of_getVariable {v : Variable} (h : getVariable scopes name = some v) :
    isVariableName name = true := by
  by_contra hname
  rw [getVariable, if_neg hname] at h
  cases h

theorem view_setVariable (scopes : ScopeStack) (name : Ident) (value : VarValue) :
    ScopeStack.view name (setVariable scopes name value) =
      (ScopeStack.view name scopes).set value := by
  induction scopes with
  | nil => rfl
  | cons scope scopes ih =>
      rw [setVariable, ScopeStack.view_cons]
      cases h : scope.find name with
      | some v =>
          rw [if_pos Option.isSome_some, ScopeStack.view_cons, VarScope.find_set, h]
          rfl
      | none =>
          rw [if_neg (by simp), ScopeStack.view_cons, h, ih]
          rfl

@[simp] theorem length_setVariable (scopes : ScopeStack) (name : Ident) (value : VarValue) :
    (setVariable scopes name value).length = scopes.length := by
  rw [← ScopeStack.length_view name, view_setVariable, View.length_set,
    ScopeStack.length_view]

theorem name_of_getVariable {v : Variable} (h : getVariable scopes name = some v) :
    v.name = name := by
  rw [getVariable, if_pos (isVariableName_of_getVariable h)] at h
  obtain ⟨scope, -, hfind⟩ := List.exists_of_findSome?_eq_some h
  exact VarScope.name_of_find hfind

/-- `pop_to_scope_depth` back to a depth that the stack has. -/
theorem popToScopeDepth_of_le {target : ℕ} (hpos : 0 < target) (hle : target ≤ scopes.length) :
    popToScopeDepth scopes target = .ok (scopes.drop (scopes.length - target)) := by
  rw [popToScopeDepth, if_neg (by omega), if_neg (by omega)]

/-! ### Coercion -/

/-- A variable with this value takes the other value as it is. -/
def VarValue.Accepts (target source : VarValue) : Prop :=
  target.type = .typeNil ∨ target.type = source.type ∨
    (target.type = .typeStruct ∧ source.type = .typeClass)

instance (target source : VarValue) : Decidable (target.Accepts source) :=
  inferInstanceAs (Decidable (_ ∨ _ ∨ _))

variable {casts : NumericCasts} {target source : VarValue}

theorem type_of_tryNumericCoercion {type : VarType}
    (h : tryNumericCoercion casts type source = some value) :
    value.type = type ∧ source.type ≠ type ∧ type ≠ .typeStruct := by
  unfold tryNumericCoercion at h
  split at h <;> cases h <;> simp [VarValue.type]

theorem type_of_tryOptionalCoercion {type : VarType}
    (h : tryOptionalCoercion type source = some value) :
    value.type = .typeOptional ∧ type = .typeOptional := by
  unfold tryOptionalCoercion at h
  split at h <;> cases h <;> simp [VarValue.type]

variable (casts) in
/-- **What an assignment stores.**  The value itself is stored exactly when the
variable takes it as it is. -/
theorem coerceAndAssign_eq_self_iff :
    coerceAndAssign casts target source = some source ↔ target.Accepts source := by
  unfold coerceAndAssign VarValue.Accepts
  by_cases hsame : target.type = .typeNil ∨ target.type = source.type
  · rw [if_pos hsame]
    exact ⟨fun _ => hsame.elim .inl fun h => .inr (.inl h), fun _ => rfl⟩
  rw [if_neg hsame]
  obtain ⟨hnil, htype⟩ := not_or.mp hsame
  cases hnum : tryNumericCoercion casts target.type source with
  | some value =>
      obtain ⟨hvalue, -, hstruct⟩ := type_of_tryNumericCoercion hnum
      refine ⟨fun h => ?_, fun h => ?_⟩
      · cases h
        exact absurd hvalue.symm htype
      · rcases h with h | h | h
        · exact absurd h hnil
        · exact absurd h htype
        · exact absurd h.1 hstruct
  | none =>
      cases hopt : tryOptionalCoercion target.type source with
      | some value =>
          obtain ⟨hvalue, htarget⟩ := type_of_tryOptionalCoercion hopt
          refine ⟨fun h => ?_, fun h => ?_⟩
          · cases h
            exact absurd (htarget.trans hvalue.symm) htype
          · rcases h with h | h | h
            · exact absurd h hnil
            · exact absurd h htype
            · rw [htarget] at h
              exact absurd h.1 (by decide)
      | none =>
          by_cases hclass : target.type = .typeStruct ∧ source.type = .typeClass
          · simp [hclass]
          · simp [hclass, hnil, htype]

/-- The value of a variable after an assignment, which a mismatch does not change. -/
def assignedValue (casts : NumericCasts) (target source : VarValue) : VarValue :=
  (coerceAndAssign casts target source).getD target

theorem assignedValue_eq_iff :
    assignedValue casts target source = source ↔ target.Accepts source := by
  rw [← coerceAndAssign_eq_self_iff casts, assignedValue]
  cases h : coerceAndAssign casts target source with
  | some value => simp
  | none =>
      refine ⟨fun heq => ?_, fun heq => by cases heq⟩
      -- a variable that has the value already takes it as it is
      rw [Option.getD_none] at heq
      rw [← h, coerceAndAssign_eq_self_iff]
      exact .inr (.inl (congrArg VarValue.type heq))

/-! ### Assignments and loads -/

variable {v : Variable}

theorem view_assignFound (h : getVariable scopes name = some v) :
    ScopeStack.view name (assignFound casts scopes v value).2 =
      (ScopeStack.view name scopes).set (assignedValue casts v.value value) := by
  unfold assignFound assignedValue
  cases coerceAndAssign casts v.value value with
  | some stored => rw [name_of_getVariable h, view_setVariable, Option.getD_some]
  | none =>
      rw [getVariable_eq (isVariableName_of_getVariable h)] at h
      rw [Option.getD_none, View.set_value h]

theorem breadVarAssign_of_getVariable (h : getVariable scopes name = some v)
    (hconst : v.isConst = false) :
    breadVarAssign casts scopes name value = .ok (assignFound casts scopes v value) := by
  rw [breadVarAssign, h]
  simp [hconst]

theorem breadVarLoad_eq (hname : isVariableName name = true) :
    breadVarLoad scopes name = (ScopeStack.view name scopes).visible.map (·.value) := by
  rw [breadVarLoad, getVariable_eq hname]

/-- A load depends on the view alone. -/
theorem breadVarLoad_congr {scopes' : ScopeStack}
    (h : ScopeStack.view name scopes' = ScopeStack.view name scopes) :
    breadVarLoad scopes' name = breadVarLoad scopes name := by
  cases hname : isVariableName name with
  | true => rw [breadVarLoad_eq hname, breadVarLoad_eq hname, h]
  | false => rw [breadVarLoad, breadVarLoad, getVariable_of_not hname, getVariable_of_not hname]

/-! ### Declarations -/

variable (casts scopes) in
/-- A variable that is declared with `nil` in a scope that has room. -/
theorem breadVarDecl_nil (hname : isVariableName name = true) (hscope : scope.find name = none)
    (hroom : scope.length < maxVars) :
    breadVarDecl casts (scope :: scopes) name .typeNil false (some .nil) =
      .ok (true, (scope ++ [⟨name, .nil, false⟩]) :: scopes) := by
  have hlength : ¬ 255 ≤ name.length := by
    simp only [isVariableName, Bool.and_eq_true, decide_eq_true_eq] at hname
    omega
  have hfind := VarScope.find_append_of_none (v := ⟨name, .nil, false⟩) hscope rfl
  have hget : getVariable ((scope ++ [⟨name, .nil, false⟩]) :: scopes) name =
      some ⟨name, .nil, false⟩ := by
    rw [getVariable_eq hname, ScopeStack.view_cons, hfind]
    rfl
  have hset : VarScope.set (scope ++ [⟨name, .nil, false⟩]) name .nil =
      scope ++ [⟨name, .nil, false⟩] := by
    have hnames : ∀ v ∈ scope, v.name ≠ name := by
      simpa [VarScope.find] using hscope
    clear hscope hroom hfind hget
    induction scope with
    | nil => simp [VarScope.set]
    | cons v scope ih =>
        rw [List.cons_append, VarScope.set, if_neg (hnames v List.mem_cons_self),
          ih fun w hw => hnames w (List.mem_cons_of_mem _ hw)]
  have hdeclare : declareVariableRaw (scope :: scopes) name .typeNil false =
      .ok ((scope ++ [⟨name, .nil, false⟩]) :: scopes) := by
    simp [declareVariableRaw, hscope, hlength, Nat.not_le.mpr hroom, VarType.zero]
  rw [breadVarDecl, hdeclare]
  simp only [bind, Except.bind, hget]
  simp only [assignFound, coerceAndAssign, VarValue.type, true_or, if_true, setVariable, hfind,
    Option.isSome_some, hset]
  rfl

end BreadLang
