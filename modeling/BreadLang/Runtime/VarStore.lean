import BreadLang.Library.Outcome
import BreadLang.Library.Run
import BreadLang.Library.ScopedMap
import BreadLang.Runtime.VarFacts

/-!
# The variable store as a stack of maps

Sequences of the runtime calls on variables and scopes, against a stack of maps from names
to values.  What an assignment stores is the value that the coercion of `var.c` makes of
the one assigned, or the old one when the types do not go together.

`step_refines` is the step lemma.  It needs that no variable is declared with the empty
name, which `declare_variable_raw` takes and `get_variable` never finds.  `step_constants`
and `step_outer` say what a step of the maps does to the scopes that stay open.
-/

namespace BreadLang

/-! ### The calls -/

/-- `pop_scope`. -/
def popScope (scopes : ScopeStack) : Exec ScopeStack :=
  if scopes.length ≤ 1 then runtimeAbort "Cannot pop global scope" else .ok scopes.tail

/-- A call of the runtime on variables and scopes. -/
inductive VarOp where
  | pushScope
  | popScope
  | popToScopeDepth (target : ℤ)
  | varDecl (name : Ident) (type : VarType) (isConst : Bool) (init : Option VarValue)
  | varDeclIfMissing (name : Ident) (type : VarType) (isConst : Bool) (init : Option VarValue)
  | varAssign (name : Ident) (value : VarValue)
  | varLoad (name : Ident)

/-- What a call returns. -/
inductive VarReply where
  | done
  | returned (success : Bool)
  | loaded (value : Option VarValue)
  deriving DecidableEq

namespace ScopeStack

/-- The stack after `init_variables`. -/
def init : ScopeStack :=
  [[]]

/-- One call. -/
def step (casts : NumericCasts) (scopes : ScopeStack) : VarOp → Exec (ScopeStack × VarReply)
  | .pushScope => (fun scopes => (scopes, .done)) <$> BreadLang.pushScope scopes
  | .popScope => (fun scopes => (scopes, .done)) <$> BreadLang.popScope scopes
  | .popToScopeDepth target =>
      (fun scopes => (scopes, .done)) <$> BreadLang.popToScopeDepth scopes target.toNat
  | .varDecl name type isConst init =>
      (fun result => (result.2, .returned result.1)) <$>
        breadVarDecl casts scopes name type isConst init
  | .varDeclIfMissing name type isConst init =>
      (fun result => (result.2, .returned result.1)) <$>
        breadVarDeclIfMissing casts scopes name type isConst init
  | .varAssign name value =>
      (fun result => (result.2, .returned result.1)) <$> breadVarAssign casts scopes name value
  | .varLoad name => .ok (scopes, .loaded (breadVarLoad scopes name))

end ScopeStack

/-! ### Maps -/

/-- What a scope has for a name. -/
structure Binding where
  value : VarValue
  isConst : Bool
  deriving DecidableEq

/-- A stack of maps from names to bindings. -/
abbrev BindingMaps := ScopedMap Ident Binding

namespace BindingMaps

/-- Before the first call there is one map, without a name. -/
def init : BindingMaps :=
  [fun _ => none]

/-- The value that a declared variable starts with, and the result of the call. -/
def initial (casts : NumericCasts) (type : VarType) : Option VarValue → VarValue × Bool
  | none => (type.zero, true)
  | some value =>
      (assignedValue casts type.zero value, (coerceAndAssign casts type.zero value).isSome)

/-- A declaration, which is refused when the innermost map has the name. -/
def declared (casts : NumericCasts) (m : BindingMaps) (name : Ident) (type : VarType)
    (isConst : Bool) (init : Option VarValue) : BindingMaps × VarReply :=
  if m.declares name then (m, .returned false)
  else
    let (value, success) := initial casts type init
    (m.declare name ⟨value, isConst⟩, .returned success)

/-- What a call means for the maps.  A constant is not assigned to. -/
def step (casts : NumericCasts) (m : BindingMaps) : VarOp → BindingMaps × VarReply
  | .pushScope => ((fun _ => none) :: m, .done)
  | .popScope => (m.tail, .done)
  | .popToScopeDepth target => (m.drop (m.length - target.toNat), .done)
  | .varDecl name type isConst init => m.declared casts name type isConst init
  | .varDeclIfMissing name type isConst init =>
      match m.lookup name with
      | some _ => (m, .returned true)
      | none => m.declared casts name type isConst init
  | .varAssign name value =>
      match m.lookup name with
      | none => (m, .returned false)
      | some b =>
          if b.isConst then (m, .returned false)
          else
            (m.update name { b with value := assignedValue casts b.value value },
              .returned (coerceAndAssign casts b.value value).isSome)
  | .varLoad name => (m, .loaded ((m.lookup name).map Binding.value))

end BindingMaps

/-! ### The maps of a stack -/

/-- The binding of a variable. -/
def Variable.binding (v : Variable) : Binding where
  value := v.value
  isConst := v.isConst

/-- The map of a scope. -/
def VarScope.map (scope : VarScope) (name : Ident) : Option Binding :=
  (scope.find name).map Variable.binding

/-- The maps of the scopes. -/
def ScopeStack.maps (scopes : ScopeStack) : BindingMaps :=
  List.map VarScope.map scopes

/-- **A stack that can be read as maps**: no scope has two variables of one name, and every
variable can be looked up. -/
structure ScopeStack.Named (scopes : ScopeStack) : Prop where
  nodup : ∀ scope ∈ scopes, (List.map Variable.name scope).Nodup
  names : ∀ scope ∈ scopes, ∀ v ∈ scope, isVariableName v.name = true

section Maps

variable {scopes : ScopeStack} {scope : VarScope} {name : Ident} {v : Variable}
  {value : VarValue}

theorem VarScope.find_eq_none_iff : scope.find name = none ↔ ∀ v ∈ scope, v.name ≠ name := by
  simp [VarScope.find]

theorem lookup_maps (scopes : ScopeStack) (name : Ident) :
    (ScopeStack.maps scopes).lookup name =
      (scopes.findSome? (·.find name)).map Variable.binding := by
  rw [ScopedMap.lookup, ScopeStack.maps, List.findSome?_map]
  induction scopes with
  | nil => rfl
  | cons scope scopes ih =>
      cases h : scope.find name with
      | some v => simp [VarScope.map, h]
      | none => simpa [VarScope.map, h] using ih

/-- **`get_variable`** is the look-up. -/
theorem getVariable_binding (hnamed : ScopeStack.Named scopes) (name : Ident) :
    (getVariable scopes name).map Variable.binding = (ScopeStack.maps scopes).lookup name := by
  rw [lookup_maps, getVariable]
  split
  · rfl
  · rename_i hname
    cases h : scopes.findSome? (·.find name) with
    | none => rfl
    | some v =>
        obtain ⟨scope, hscope, hfind⟩ := List.exists_of_findSome?_eq_some h
        have hmem := hnamed.names scope hscope v (List.mem_of_find?_eq_some hfind)
        rw [VarScope.name_of_find hfind] at hmem
        exact absurd hmem hname

theorem VarScope.map_set (scope : VarScope) (name : Ident) (value : VarValue)
    (hv : scope.find name = some v) :
    VarScope.map (scope.set name value) =
      Function.update (VarScope.map scope) name (some ⟨value, v.isConst⟩) := by
  funext other
  by_cases hother : other = name
  · subst hother
    rw [Function.update_self, VarScope.map, VarScope.find_set, hv]
    rfl
  · rw [Function.update_of_ne hother]
    have hfind : (scope.set name value).find other = scope.find other := by
      clear hv
      induction scope with
      | nil => rfl
      | cons w scope ih =>
          rw [VarScope.set]
          split
          · rename_i hw
            have hne : w.name ≠ other := fun h => hother (h.symm.trans hw)
            rw [VarScope.find, VarScope.find, List.find?_cons_of_neg (by simpa),
              List.find?_cons_of_neg (by simpa)]
          · by_cases hw : w.name = other
            · rw [VarScope.find, VarScope.find, List.find?_cons_of_pos (by simpa),
                List.find?_cons_of_pos (by simpa)]
            · rw [VarScope.find, VarScope.find, List.find?_cons_of_neg (by simpa),
                List.find?_cons_of_neg (by simpa)]
              exact ih
    rw [VarScope.map, VarScope.map, hfind]

theorem maps_setVariable (hv : scopes.findSome? (·.find name) = some v) (value : VarValue) :
    ScopeStack.maps (setVariable scopes name value) =
      (ScopeStack.maps scopes).update name ⟨value, v.isConst⟩ := by
  induction scopes with
  | nil => rfl
  | cons scope scopes ih =>
      cases h : scope.find name with
      | some w =>
          rw [List.findSome?_cons, h] at hv
          cases hv
          have hmap : (VarScope.map scope name).isSome = true := by
            rw [VarScope.map, h]
            rfl
          rw [setVariable, h, if_pos Option.isSome_some, ScopeStack.maps, List.map_cons,
            VarScope.map_set _ _ _ h, ScopeStack.maps, List.map_cons, ScopedMap.update, if_pos hmap]
      | none =>
          rw [List.findSome?_cons, h] at hv
          have hmap : ¬ (VarScope.map scope name).isSome = true := by
            rw [VarScope.map, h]
            exact Bool.false_ne_true
          rw [setVariable, h, if_neg (by simp), ScopeStack.maps, List.map_cons, ScopeStack.maps,
            List.map_cons, ScopedMap.update, if_neg hmap]
          exact congrArg _ (ih hv)

theorem VarScope.map_append (hnone : scope.find v.name = none) :
    VarScope.map (scope ++ [v]) =
      Function.update (VarScope.map scope) v.name (some v.binding) := by
  funext other
  by_cases hother : other = v.name
  · subst hother
    rw [Function.update_self, VarScope.map, VarScope.find_append_of_none hnone rfl]
    rfl
  · rw [Function.update_of_ne hother, VarScope.map, VarScope.map, VarScope.find, VarScope.find,
      List.find?_append]
    have hlast : List.find? (·.name == other) [v] = none := by
      rw [List.find?_cons_of_neg (by simpa using Ne.symm hother)]
      rfl
    rw [hlast, Option.or_none]

end Maps

/-! ### One call -/

section Steps

variable {casts : NumericCasts} {scopes scopes' : ScopeStack} {scope : VarScope} {name : Ident}
  {type : VarType} {isConst : Bool} {v : Variable} {value : VarValue}

/-- The names of a stack decide whether it can be read as maps. -/
theorem ScopeStack.Named.of_names (hnamed : ScopeStack.Named scopes)
    (hsame : List.map (List.map Variable.name) scopes' = List.map (List.map Variable.name) scopes) :
    ScopeStack.Named scopes' := by
  have hscope : ∀ scope' ∈ scopes', ∃ scope ∈ scopes,
      List.map Variable.name scope = List.map Variable.name scope' := by
    intro scope' hmem
    have hnames : List.map Variable.name scope' ∈ List.map (List.map Variable.name) scopes :=
      hsame ▸ List.mem_map_of_mem hmem
    exact List.mem_map.mp hnames
  refine ⟨fun scope' hmem => ?_, fun scope' hmem v hv => ?_⟩
  · obtain ⟨scope, hold, hnames⟩ := hscope scope' hmem
    exact hnames ▸ hnamed.nodup scope hold
  · obtain ⟨scope, hold, hnames⟩ := hscope scope' hmem
    have hname : v.name ∈ List.map Variable.name scope := hnames ▸ List.mem_map_of_mem hv
    obtain ⟨w, hw, hwv⟩ := List.mem_map.mp hname
    exact hwv ▸ hnamed.names scope hold w hw

theorem names_set (scope : VarScope) (name : Ident) (value : VarValue) :
    List.map Variable.name (scope.set name value) = List.map Variable.name scope := by
  induction scope with
  | nil => rfl
  | cons v scope ih =>
      rw [VarScope.set]
      split
      · rfl
      · rw [List.map_cons, ih, List.map_cons]

theorem names_setVariable (scopes : ScopeStack) (name : Ident) (value : VarValue) :
    List.map (List.map Variable.name) (setVariable scopes name value) =
      List.map (List.map Variable.name) scopes := by
  induction scopes with
  | nil => rfl
  | cons scope scopes ih =>
      rw [setVariable]
      split
      · rw [List.map_cons, names_set, List.map_cons]
      · rw [List.map_cons, ih, List.map_cons]

/-- **An assignment to a variable that was found** is an update of its binding. -/
theorem assignFound_maps (casts : NumericCasts) (hfound : getVariable scopes name = some v) (value : VarValue) :
    ScopeStack.maps (assignFound casts scopes v value).2 =
        (ScopeStack.maps scopes).update name
          { v.binding with value := assignedValue casts v.value value } ∧
      (assignFound casts scopes v value).1 = (coerceAndAssign casts v.value value).isSome ∧
      List.map (List.map Variable.name) (assignFound casts scopes v value).2 =
        List.map (List.map Variable.name) scopes := by
  have hname := name_of_getVariable hfound
  have hfind : scopes.findSome? (·.find name) = some v := by
    rw [getVariable] at hfound
    split at hfound
    · exact hfound
    · cases hfound
  unfold assignFound assignedValue
  cases hcoerced : coerceAndAssign casts v.value value with
  | none =>
      refine ⟨?_, rfl, rfl⟩
      have hlookup : (ScopeStack.maps scopes).lookup name = some v.binding := by
        rw [lookup_maps, hfind]
        rfl
      exact (ScopedMap.update_lookup hlookup).symm
  | some stored =>
      refine ⟨?_, rfl, names_setVariable _ _ _⟩
      rw [hname]
      exact maps_setVariable hfind stored

theorem declareVariableRaw_spec : Gives (declareVariableRaw scopes name type isConst) fun scopes' =>
    ∃ scope rest, scopes = scope :: rest ∧ scope.find name = none ∧ name.length < 255 ∧
      scopes' = (scope ++ [⟨name, type.zero, isConst⟩]) :: rest := by
  unfold declareVariableRaw runtimeAbort
  split
  · exact gives_error
  rename_i scope rest
  split
  · exact gives_error
  rename_i hfresh
  split
  · exact gives_error
  split
  · exact gives_error
  rename_i hlength
  have hlt : name.length < 255 := Nat.not_le.mp hlength
  refine gives_ok ⟨scope, rest, rfl, ?_, hlt, rfl⟩
  by_contra hne
  exact hfresh (by simp [Option.isSome_iff_ne_none.mpr hne, hlt])

/-- The variables of a scope with a new one. -/
theorem ScopeStack.Named.declare (hnamed : ScopeStack.Named (scope :: scopes))
    (hnone : scope.find name = none) (hname : isVariableName name = true) (isConst : Bool)
    (value : VarValue) : ScopeStack.Named ((scope ++ [⟨name, value, isConst⟩]) :: scopes) := by
  rw [VarScope.find_eq_none_iff] at hnone
  refine ⟨List.forall_mem_cons.mpr ⟨?_, fun s hs => hnamed.nodup s (List.mem_cons_of_mem _ hs)⟩,
    List.forall_mem_cons.mpr ⟨?_, fun s hs => hnamed.names s (List.mem_cons_of_mem _ hs)⟩⟩
  · rw [List.map_append, List.nodup_append]
    refine ⟨hnamed.nodup scope List.mem_cons_self, List.pairwise_singleton _ _, ?_⟩
    intro a ha b hb
    obtain ⟨v, hv, rfl⟩ := List.mem_map.mp ha
    rw [List.mem_singleton.mp hb]
    exact hnone v hv
  · intro v hv
    rcases List.mem_append.mp hv with hv | hv
    · exact hnamed.names scope List.mem_cons_self v hv
    · rw [List.mem_singleton.mp hv]
      exact hname

/-- **`bread_var_decl`** of a name that is not empty.  The look-up after the declaration
finds the variable that has been declared. -/
theorem breadVarDecl_refines (hnamed : ScopeStack.Named scopes) (hne : name ≠ [])
    (init : Option VarValue) :
    Gives (breadVarDecl casts scopes name type isConst init) fun result =>
      (ScopeStack.maps scopes).declared casts name type isConst init =
        (ScopeStack.maps result.2, .returned result.1) ∧ ScopeStack.Named result.2 := by
  refine gives_bind declareVariableRaw_spec ?_
  rintro _ ⟨scope, rest, rfl, hnone, hlength, rfl⟩
  have hname : isVariableName name = true := by
    have hpos : name.length ≠ 0 := fun h => hne (List.length_eq_zero_iff.mp h)
    simp [isVariableName, hpos, hlength]
  have hnamed' := hnamed.declare hnone hname isConst type.zero
  have hmaps : ScopeStack.maps ((scope ++ [⟨name, type.zero, isConst⟩]) :: rest) =
      (ScopeStack.maps (scope :: rest)).declare name ⟨type.zero, isConst⟩ := by
    rw [ScopeStack.maps, List.map_cons, VarScope.map_append hnone]
    rfl
  have hdeclares : (ScopeStack.maps (scope :: rest)).declares name = false := by
    rw [ScopeStack.maps, List.map_cons, ScopedMap.declares, VarScope.map, hnone]
    rfl
  rw [BindingMaps.declared, hdeclares, if_neg Bool.false_ne_true]
  cases init with
  | none => exact gives_pure ⟨by rw [hmaps]; rfl, hnamed'⟩
  | some value =>
      have hget : getVariable ((scope ++ [⟨name, type.zero, isConst⟩]) :: rest) name =
          some ⟨name, type.zero, isConst⟩ := by
        rw [getVariable_eq hname, ScopeStack.view_cons, VarScope.find_append_of_none hnone rfl]
        rfl
      obtain ⟨hassigned, hreply, hnames⟩ := assignFound_maps casts hget value
      dsimp only
      rw [hget]
      refine gives_pure ⟨?_, hnamed'.of_names hnames⟩
      rw [hassigned, hreply, hmaps, ScopedMap.update_declare]
      rfl

/-- A declaration has a name. -/
def VarOp.HasName : VarOp → Prop
  | .varDecl name _ _ _ | .varDeclIfMissing name _ _ _ => name ≠ []
  | _ => True

instance : ∀ op : VarOp, Decidable op.HasName
  | .varDecl name _ _ _ => inferInstanceAs (Decidable (name ≠ []))
  | .varDeclIfMissing name _ _ _ => inferInstanceAs (Decidable (name ≠ []))
  | .pushScope => .isTrue trivial
  | .popScope => .isTrue trivial
  | .popToScopeDepth _ => .isTrue trivial
  | .varAssign _ _ => .isTrue trivial
  | .varLoad _ => .isTrue trivial

/-- **One call** is one step of the maps. -/
theorem step_refines (hnamed : ScopeStack.Named scopes) (op : VarOp) (hop : op.HasName) :
    Gives (ScopeStack.step casts scopes op) fun result =>
      BindingMaps.step casts (ScopeStack.maps scopes) op = (ScopeStack.maps result.1, result.2) ∧
        ScopeStack.Named result.1 := by
  cases op with
  | pushScope =>
      refine gives_map ?_
      unfold pushScope runtimeAbort
      split
      · exact gives_error
      · exact gives_ok ⟨rfl, List.forall_mem_cons.mpr ⟨List.nodup_nil, hnamed.nodup⟩,
          List.forall_mem_cons.mpr ⟨fun v hv => absurd hv List.not_mem_nil, hnamed.names⟩⟩
  | popScope =>
      refine gives_map ?_
      unfold popScope runtimeAbort
      split
      · exact gives_error
      · refine gives_ok ⟨?_, fun s hs => hnamed.nodup s (List.mem_of_mem_tail hs),
          fun s hs => hnamed.names s (List.mem_of_mem_tail hs)⟩
        rw [BindingMaps.step, ScopeStack.maps, ScopeStack.maps, List.map_tail]
  | popToScopeDepth target =>
      refine gives_map ?_
      unfold popToScopeDepth runtimeAbort
      split
      · exact gives_error
      split
      · exact gives_error
      · refine gives_ok ⟨?_, fun s hs => hnamed.nodup s (List.mem_of_mem_drop hs),
          fun s hs => hnamed.names s (List.mem_of_mem_drop hs)⟩
        rw [BindingMaps.step, ScopeStack.maps, ScopeStack.maps, List.map_drop, List.length_map]
  | varDecl name type isConst init =>
      exact gives_map (breadVarDecl_refines hnamed hop init)
  | varDeclIfMissing name type isConst init =>
      refine gives_map ?_
      have hlookup := getVariable_binding hnamed name
      rw [BindingMaps.step]
      unfold breadVarDeclIfMissing
      cases hget : getVariable scopes name with
      | some v =>
          rw [hget] at hlookup
          rw [← hlookup]
          exact gives_ok ⟨rfl, hnamed⟩
      | none =>
          rw [hget] at hlookup
          rw [← hlookup]
          exact breadVarDecl_refines hnamed hop init
  | varAssign name value =>
      refine gives_map ?_
      have hlookup := getVariable_binding hnamed name
      rw [BindingMaps.step]
      unfold breadVarAssign runtimeAbort
      cases hget : getVariable scopes name with
      | none =>
          rw [hget] at hlookup
          rw [← hlookup]
          exact gives_ok ⟨rfl, hnamed⟩
      | some v =>
          rw [hget] at hlookup
          rw [← hlookup]
          dsimp only
          split
          · exact gives_error
          · rename_i hconst
            obtain ⟨hassigned, hreply, hnames⟩ := assignFound_maps casts hget value
            refine gives_ok ⟨?_, hnamed.of_names hnames⟩
            rw [hassigned, hreply, Option.map_some]
            dsimp only
            rw [if_neg (show ¬ v.binding.isConst = true from hconst)]
            rfl
  | varLoad name =>
      refine gives_ok ⟨?_, hnamed⟩
      rw [BindingMaps.step, ← getVariable_binding hnamed name, breadVarLoad, Option.map_map]
      rfl

end Steps

/-! ### Scopes that stay open -/

/-- The constants of a scope are kept. -/
def ConstantsKept (scope scope' : Ident → Option Binding) : Prop :=
  ∀ name b, scope name = some b → b.isConst = true → scope' name = some b

theorem ConstantsKept.refl (scope : Ident → Option Binding) : ConstantsKept scope scope :=
  fun _ _ h _ => h

theorem ConstantsKept.update {scope : Ident → Option Binding} {name : Ident} (b : Option Binding)
    (h : ∀ old, scope name = some old → old.isConst = false) :
    ConstantsKept scope (Function.update scope name b) := by
  intro other old hold hconst
  by_cases hother : other = name
  · subst hother
    rw [h old hold] at hconst
    cases hconst
  · rw [Function.update_of_ne hother, hold]

namespace BindingMaps

variable {casts : NumericCasts} {m : BindingMaps} {level : ℕ} {name : Ident} {type : VarType}
  {isConst : Bool} {init : Option VarValue}

theorem declared_kept : List.Forall₂ ConstantsKept m (m.declared casts name type isConst init).1 := by
  unfold declared
  split
  · exact List.forall₂_same.mpr fun scope _ => .refl scope
  · rename_i hfresh
    refine ScopedMap.forall₂_declare .refl (fun scope hnone => ?_) (Bool.not_eq_true _ ▸ hfresh)
    refine .update _ fun old hold => ?_
    rw [hnone] at hold
    cases hold

theorem outer_declared (h : level < m.length) :
    ScopedMap.outer level (m.declared casts name type isConst init).1 =
      ScopedMap.outer level m := by
  unfold declared
  split
  · rfl
  · exact ScopedMap.outer_declare h

/-- Leaving scopes leaves the ones below. -/
theorem outer_leave {n : ℕ} (hn : n ≤ m.length) (h : level ≤ (m.drop n).length) :
    ScopedMap.outer level (m.drop n) = ScopedMap.outer level m := by
  refine ScopedMap.outer_drop ?_
  rw [List.length_drop] at h
  omega

/-- **One call keeps the constants** of the scopes that stay open. -/
theorem step_constants (op : VarOp) (hbefore : level ≤ m.length)
    (hafter : level ≤ (step casts m op).1.length) :
    List.Forall₂ ConstantsKept (ScopedMap.outer level m)
      (ScopedMap.outer level (step casts m op).1) := by
  have hsame : List.Forall₂ ConstantsKept m m := List.forall₂_same.mpr fun scope _ => .refl scope
  cases op with
  | pushScope =>
      rw [step, ScopedMap.outer_cons hbefore]
      exact ScopedMap.forall₂_outer hsame level
  | popScope =>
      rw [step, ← List.drop_one] at hafter ⊢
      rcases Nat.eq_zero_or_pos m.length with hempty | hpos
      · rw [List.length_eq_zero_iff.mp hempty]
        exact ScopedMap.forall₂_outer .nil level
      · rw [outer_leave hpos hafter]
        exact ScopedMap.forall₂_outer hsame level
  | popToScopeDepth target =>
      rw [step] at hafter ⊢
      rw [outer_leave (Nat.sub_le _ _) hafter]
      exact ScopedMap.forall₂_outer hsame level
  | varDecl name type isConst init => exact ScopedMap.forall₂_outer declared_kept level
  | varDeclIfMissing name type isConst init =>
      rw [step]
      split
      · exact ScopedMap.forall₂_outer hsame level
      · exact ScopedMap.forall₂_outer declared_kept level
  | varAssign name value =>
      rw [step]
      refine ScopedMap.forall₂_outer ?_ level
      split
      · exact hsame
      rename_i b hb
      split
      · exact hsame
      rename_i hconst
      refine ScopedMap.forall₂_update .refl fun scope old hold hscope => .update _ fun old' hold' => ?_
      rw [hb] at hold
      cases hold
      rw [hscope] at hold'
      cases hold'
      exact Bool.not_eq_true _ ▸ hconst
  | varLoad name => exact ScopedMap.forall₂_outer hsame level

/-- The call assigns to a name that no scope above the level has. -/
def reaches (level : ℕ) (m : BindingMaps) : VarOp → Bool
  | .varAssign name _ => ((ScopedMap.inner level m).lookup name).isNone
  | _ => false

/-- The assignments of a run that reach the scopes below a level. -/
def reaching (casts : NumericCasts) (level : ℕ) : BindingMaps → List VarOp → List VarOp
  | _, [] => []
  | m, op :: ops =>
      if reaches level m op then op :: reaching casts level (step casts m op).1 ops
      else reaching casts level (step casts m op).1 ops

/-- **What one call does to the scopes below an open one.**  Only an assignment that
reaches them changes them, and it does so as if the others were not there. -/
theorem step_outer (op : VarOp) (hbefore : level < m.length)
    (hafter : level ≤ (step casts m op).1.length) :
    ScopedMap.outer level (step casts m op).1 =
      if reaches level m op then (step casts (ScopedMap.outer level m) op).1
      else ScopedMap.outer level m := by
  cases op with
  | pushScope =>
      show ScopedMap.outer level ((fun _ => none) :: m) = ScopedMap.outer level m
      exact ScopedMap.outer_cons hbefore.le
  | popScope =>
      show ScopedMap.outer level m.tail = ScopedMap.outer level m
      rw [step, ← List.drop_one] at hafter
      rw [← List.drop_one]
      exact outer_leave (Nat.one_le_of_lt hbefore) hafter
  | popToScopeDepth target =>
      exact outer_leave (Nat.sub_le _ _) hafter
  | varDecl name type isConst init =>
      exact outer_declared hbefore
  | varDeclIfMissing name type isConst init =>
      show ScopedMap.outer level (step casts m (.varDeclIfMissing name type isConst init)).1 =
        ScopedMap.outer level m
      rw [step]
      split
      · rfl
      · exact outer_declared hbefore
  | varAssign name value =>
      cases hinner : (ScopedMap.inner level m).lookup name with
      | none =>
          rw [reaches, hinner, if_pos Option.isNone_none, step, step,
            ScopedMap.lookup_outer hinner]
          split
          · rfl
          split
          · rfl
          · exact ScopedMap.outer_update hinner
      | some b =>
          have hne : (ScopedMap.inner level m).lookup name ≠ none := by
            rw [hinner]
            exact Option.some_ne_none b
          rw [reaches, hinner, if_neg (by simp), step]
          split
          · rfl
          split
          · rfl
          · exact ScopedMap.outer_update_of_inner hne
  | varLoad name => rfl

end BindingMaps

/-! ### Runs -/

section Runs

variable {casts : NumericCasts} {scopes scopes' : ScopeStack} {ops : List VarOp}
  {rs : List VarReply} {start level : ℕ}

@[simp] theorem length_maps (scopes : ScopeStack) :
    (ScopeStack.maps scopes).length = scopes.length :=
  List.length_map _

theorem named_init : ScopeStack.Named ScopeStack.init where
  nodup := by simp [ScopeStack.init]
  names := by simp [ScopeStack.init]

/-- **A run of the calls** is a run of the maps. -/
theorem run_maps (hnamed : ScopeStack.Named scopes) (hops : ∀ op ∈ ops, op.HasName)
    (hrun : Run.run (ScopeStack.step casts) scopes ops = .ok (scopes', rs)) :
    Run.replay (BindingMaps.step casts) (ScopeStack.maps scopes) ops =
        (ScopeStack.maps scopes', rs) ∧ ScopeStack.Named scopes' := by
  induction ops generalizing scopes rs with
  | nil =>
      cases hrun
      exact ⟨rfl, hnamed⟩
  | cons op ops ih =>
      obtain ⟨next, r, rs', hstep, hrest, rfl⟩ := Run.run_cons_eq_ok hrun
      obtain ⟨hmaps, hnext⟩ := step_refines hnamed op (hops op List.mem_cons_self) _ hstep
      obtain ⟨hreplay, hlast⟩ := ih hnext (fun op hop => hops op (List.mem_cons_of_mem _ hop)) hrest
      rw [Run.replay, hmaps]
      exact ⟨by rw [hreplay], hlast⟩

/-- Each call of a run starts at least at one depth, and the run ends at least at
another. -/
def StaysAbove (casts : NumericCasts) (start level : ℕ) (scopes scopes' : ScopeStack)
    (ops : List VarOp) : Prop :=
  Run.Guarded (ScopeStack.step casts) (fun scopes _ => start ≤ scopes.length) scopes ops ∧
    level ≤ scopes'.length

instance (start level : ℕ) (scopes scopes' : ScopeStack) (ops : List VarOp) :
    Decidable (StaysAbove casts start level scopes scopes' ops) :=
  inferInstanceAs (Decidable (_ ∧ _))

theorem StaysAbove.head (h : StaysAbove casts start level scopes scopes' ops)
    (hle : level ≤ start) (hrun : Run.run (ScopeStack.step casts) scopes ops = .ok (scopes', rs)) :
    level ≤ scopes.length := by
  cases ops with
  | nil =>
      cases hrun
      exact h.2
  | cons op ops => exact hle.trans h.1.1

theorem StaysAbove.tail {op : VarOp} {next : ScopeStack} {r : VarReply}
    (h : StaysAbove casts start level scopes scopes' (op :: ops))
    (hstep : ScopeStack.step casts scopes op = .ok (next, r)) :
    StaysAbove casts start level next scopes' ops := by
  obtain ⟨⟨_, hlater⟩, hlast⟩ := h
  rw [hstep] at hlater
  exact ⟨hlater, hlast⟩

theorem ConstantsKept.forall₂_trans {m m' m'' : BindingMaps} (h : List.Forall₂ ConstantsKept m m')
    (h' : List.Forall₂ ConstantsKept m' m'') : List.Forall₂ ConstantsKept m m'' := by
  induction h generalizing m'' with
  | nil => exact h'
  | cons hscope _ ih =>
      cases h' with
      | cons hscope' hrest =>
          exact .cons (fun name b hb hconst => hscope' name b (hscope name b hb hconst) hconst)
            (ih hrest)

/-- **A run keeps the constants** of the scopes that stay open. -/
theorem run_constants (hnamed : ScopeStack.Named scopes) (hops : ∀ op ∈ ops, op.HasName)
    (hrun : Run.run (ScopeStack.step casts) scopes ops = .ok (scopes', rs))
    (hstays : StaysAbove casts level level scopes scopes' ops) :
    List.Forall₂ ConstantsKept (ScopedMap.outer level (ScopeStack.maps scopes))
      (ScopedMap.outer level (ScopeStack.maps scopes')) := by
  induction ops generalizing scopes rs with
  | nil =>
      cases hrun
      exact List.forall₂_same.mpr fun scope _ => .refl scope
  | cons op ops ih =>
      obtain ⟨next, r, rs', hstep, hrest, rfl⟩ := Run.run_cons_eq_ok hrun
      obtain ⟨hmaps, hnext⟩ := step_refines hnamed op (hops op List.mem_cons_self) _ hstep
      have hlevel := hstays.tail hstep
      have hbefore : level ≤ (ScopeStack.maps scopes).length := by
        rw [length_maps]
        exact hstays.head le_rfl hrun
      have hafter : level ≤ (BindingMaps.step casts (ScopeStack.maps scopes) op).1.length := by
        rw [hmaps, length_maps]
        exact hlevel.head le_rfl hrest
      have hfirst := BindingMaps.step_constants op hbefore hafter
      rw [hmaps] at hfirst
      exact ConstantsKept.forall₂_trans hfirst
        (ih hnext (fun op hop => hops op (List.mem_cons_of_mem _ hop)) hrest hlevel)

/-- **A run that does not leave a scope before its end** does to the scopes below it what
the assignments that reach them do. -/
theorem run_outer (hnamed : ScopeStack.Named scopes) (hops : ∀ op ∈ ops, op.HasName)
    (hrun : Run.run (ScopeStack.step casts) scopes ops = .ok (scopes', rs))
    (hstays : StaysAbove casts (level + 1) level scopes scopes' ops) :
    ScopedMap.outer level (ScopeStack.maps scopes') =
      (Run.replay (BindingMaps.step casts) (ScopedMap.outer level (ScopeStack.maps scopes))
        (BindingMaps.reaching casts level (ScopeStack.maps scopes) ops)).1 := by
  induction ops generalizing scopes rs with
  | nil =>
      cases hrun
      rfl
  | cons op ops ih =>
      obtain ⟨next, r, rs', hstep, hrest, rfl⟩ := Run.run_cons_eq_ok hrun
      obtain ⟨hmaps, hnext⟩ := step_refines hnamed op (hops op List.mem_cons_self) _ hstep
      have hlevel := hstays.tail hstep
      have hbefore : level < (ScopeStack.maps scopes).length := by
        rw [length_maps]
        exact hstays.1.1
      have hafter : level ≤ (BindingMaps.step casts (ScopeStack.maps scopes) op).1.length := by
        rw [hmaps, length_maps]
        exact hlevel.head (Nat.le_succ level) hrest
      have houter := BindingMaps.step_outer op hbefore hafter
      have hlast := ih hnext (fun op hop => hops op (List.mem_cons_of_mem _ hop)) hrest hlevel
      rw [hmaps] at houter
      rw [BindingMaps.reaching, hlast, houter, hmaps]
      split
      · rw [Run.replay]
      · rfl

/-- The declarations of a scope, in `declare_variable_raw`, and of what can be looked up, in
`get_variable`, agree on every name but the empty one. -/
theorem store_refines_maps {ops' : List VarOp} {scopes'' : ScopeStack} {rs' : List VarReply}
    (hops : ∀ op ∈ ops ++ ops', op.HasName)
    (hrun : Run.run (ScopeStack.step casts) ScopeStack.init ops = .ok (scopes, rs))
    (hrun' : Run.run (ScopeStack.step casts) scopes ops' = .ok (scopes'', rs')) :
    Run.replay (BindingMaps.step casts) BindingMaps.init ops = (ScopeStack.maps scopes, rs) ∧
      (∀ scope ∈ scopes, (List.map Variable.name scope).Nodup) ∧
      (∀ level, StaysAbove casts level level scopes scopes'' ops' →
        List.Forall₂ ConstantsKept (ScopedMap.outer level (ScopeStack.maps scopes))
          (ScopedMap.outer level (ScopeStack.maps scopes''))) ∧
      ∀ level, StaysAbove casts (level + 1) level scopes scopes'' ops' →
        ScopedMap.outer level (ScopeStack.maps scopes'') =
          (Run.replay (BindingMaps.step casts) (ScopedMap.outer level (ScopeStack.maps scopes))
            (BindingMaps.reaching casts level (ScopeStack.maps scopes) ops')).1 := by
  have hfirst : ∀ op ∈ ops, op.HasName := fun op hop => hops op (List.mem_append_left _ hop)
  have hsecond : ∀ op ∈ ops', op.HasName := fun op hop => hops op (List.mem_append_right _ hop)
  obtain ⟨hmaps, hnamed⟩ := run_maps named_init hfirst hrun
  exact ⟨hmaps, hnamed.nodup, fun level => run_constants hnamed hsecond hrun',
    fun level => run_outer hnamed hsecond hrun'⟩

end Runs

/-- A constant, a scope in which its name is declared again, and an assignment to a
variable of the outer scope. -/
def nestedOps : List VarOp :=
  [.varDecl ['x'] .typeInt true (some (.int 1)), .varDecl ['y'] .typeInt false none]

def shadowingOps : List VarOp :=
  [.pushScope, .varDecl ['x'] .typeInt false (some (.int 2)), .varAssign ['x'] (.int 3),
    .varAssign ['y'] (.int 4), .varLoad ['x'], .popScope]

theorem store_refines_maps_nested :
    Run.replay (BindingMaps.step zeroCasts) BindingMaps.init nestedOps =
        (ScopeStack.maps [[⟨['x'], .int 1, true⟩, ⟨['y'], .int 0, false⟩]],
          [.returned true, .returned true]) ∧
      List.Forall₂ ConstantsKept
        (ScopedMap.outer 1 (ScopeStack.maps [[⟨['x'], .int 1, true⟩, ⟨['y'], .int 0, false⟩]]))
        (ScopedMap.outer 1 (ScopeStack.maps [[⟨['x'], .int 1, true⟩, ⟨['y'], .int 4, false⟩]])) := by
  have hrun : Run.run (ScopeStack.step zeroCasts) ScopeStack.init nestedOps =
      .ok ([[⟨['x'], .int 1, true⟩, ⟨['y'], .int 0, false⟩]],
        [.returned true, .returned true]) := by
    rfl
  have hrun' : Run.run (ScopeStack.step zeroCasts)
      [[⟨['x'], .int 1, true⟩, ⟨['y'], .int 0, false⟩]] shadowingOps =
      .ok ([[⟨['x'], .int 1, true⟩, ⟨['y'], .int 4, false⟩]],
        [.done, .returned true, .returned true, .returned true, .loaded (some (.int 3)), .done]) := by
    rfl
  obtain ⟨hmaps, _, hconst, _⟩ := store_refines_maps (by decide) hrun hrun'
  exact ⟨hmaps, hconst 1 (by decide)⟩

/-- The value of a variable with the empty name is not stored, and it cannot be loaded. -/
theorem empty_name_is_lost :
    ∃ scopes, Run.run (ScopeStack.step zeroCasts) ScopeStack.init
        [.varDecl [] .typeInt false (some (.int 5)), .varLoad []] =
          .ok (scopes, [.returned false, .loaded none]) ∧
      (Run.replay (BindingMaps.step zeroCasts) BindingMaps.init
        [.varDecl [] .typeInt false (some (.int 5)), .varLoad []]).2 =
          [.returned true, .loaded (some (.int 5))] :=
  ⟨[[⟨[], .int 0, false⟩]], rfl, rfl⟩

end BreadLang
