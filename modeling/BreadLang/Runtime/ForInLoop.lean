import BreadLang.Runtime.VarFacts
import Mathlib.Data.List.Forall2

/-!
# The runtime calls of a `for`-`in` loop

`build_for_in_stmt` emits the same calls whatever the loop is: the variable is
declared if no variable of its name is visible, and each turn of the loop assigns
an element to it.  A turn at the top level is in a scope of its own, but the
variable is not declared there.

The body is a sequence of steps that leave the loop variable and the array alone
and may do anything else, the end of the process included.

## Results

* `forIn_meets_iff`: the loads of every body give the element of the turn, the
  elements are visited in order, and the variables of the same name come out of the
  loop as they went in, exactly when the array is empty or the state is ready for
  the loop.
* `view_forInTurns`: the values that the variable takes, ready or not.
-/

namespace BreadLang

/-- What the calls of a loop work on: the scopes, and the elements of the array. -/
structure LoopState where
  scopes : ScopeStack
  items : List VarValue

/-! ### The calls -/

/-- `bread_value_array_get`, on an array. -/
def breadValueArrayGet (items : List VarValue) (idx : ℕ) : Exec VarValue :=
  match items[idx]? with
  | some item => .ok item
  | none =>
      let count := items.length
      .error (.abort ⟨.indexOutOfBounds,
        s!"Array index {idx} out of bounds (array length: {count})"⟩)

/-- `declare_loop_variable`.  The result of the declaration is not tested. -/
def declareLoopVariable (casts : NumericCasts) (scopes : ScopeStack) (name : Ident)
    (type : VarType) (initialIntValue : BreadInt) : Exec ScopeStack :=
  let init := if type = .typeInt then .int initialIntValue else .nil
  (·.2) <$> breadVarDeclIfMissing casts scopes name type false (some init)

/-- `setup_loop_scope`: there is no scope in a function. -/
def setupLoopScope (hasScope : Bool) (scopes : ScopeStack) : Exec ScopeStack :=
  if hasScope then pushScope scopes else .ok scopes

/-- The pop at the end of a turn, to the depth before it. -/
def leaveLoopScope (hasScope : Bool) (base : ℕ) (scopes : ScopeStack) : Exec ScopeStack :=
  if hasScope then popToScopeDepth scopes base else .ok scopes

/-! ### Bodies -/

/-- A step of a body that leaves the variables of that name and the array alone. -/
structure BodyStep (name : Ident) where
  act : LoopState → Exec LoopState
  keeps : ∀ {s s' : LoopState}, act s = .ok s' →
    s'.items = s.items ∧ s'.scopes.view name = s.scopes.view name

/-- What a body does: the values that loads of the variable give before, between
and after its steps, and the outcome. -/
structure BodyRun where
  loads : List (Option VarValue)
  result : Exec LoopState

/-- The execution of a body. -/
def runBody {name : Ident} : List (BodyStep name) → LoopState → BodyRun
  | [], s => ⟨[breadVarLoad s.scopes name], .ok s⟩
  | step :: steps, s =>
      match step.act s with
      | .error stop => ⟨[breadVarLoad s.scopes name], .error stop⟩
      | .ok s' =>
          let rest := runBody steps s'
          ⟨breadVarLoad s.scopes name :: rest.loads, rest.result⟩

/-! ### The loop -/

/-- Where a loop that does not come to its end stops. -/
inductive LoopStop where
  | loop (stop : Stop)
  | body (stop : Stop)

/-- A turn of the loop: the element, and the loads of the body. -/
structure Visit where
  element : VarValue
  loads : List (Option VarValue)

/-- What a loop does. -/
structure LoopRun where
  visits : List Visit
  result : Except LoopStop LoopState

/-- A turn before the others. -/
def LoopRun.after (visit : Visit) (run : LoopRun) : LoopRun :=
  { run with visits := visit :: run.visits }

/-- The blocks `forin.body` and `forin.assign`, up to the body.  The result of the
assignment is not tested. -/
def enterTurn (casts : NumericCasts) (name : Ident) (hasScope : Bool) (s : LoopState) (idx : ℕ) :
    Exec (VarValue × ScopeStack) := do
  let element ← breadValueArrayGet s.items idx
  let scopes ← setupLoopScope hasScope s.scopes
  let assigned ← breadVarAssign casts scopes name element
  return (element, assigned.2)

/-- The turns of the loop from an index on, of which so many remain. -/
def forInTurns (casts : NumericCasts) {name : Ident} (hasScope : Bool)
    (body : List (BodyStep name)) : ℕ → ℕ → LoopState → LoopRun
  | 0, _, s => ⟨[], .ok s⟩
  | remaining + 1, idx, s =>
      match enterTurn casts name hasScope s idx with
      | .error stop => ⟨[], .error (.loop stop)⟩
      | .ok (element, scopes) =>
          let run := runBody body { s with scopes }
          match run.result with
          | .error stop => ⟨[⟨element, run.loads⟩], .error (.body stop)⟩
          | .ok s' =>
              match leaveLoopScope hasScope s.scopes.length s'.scopes with
              | .error stop => ⟨[⟨element, run.loads⟩], .error (.loop stop)⟩
              | .ok scopes =>
                  (forInTurns casts hasScope body remaining (idx + 1) { s' with scopes }).after
                    ⟨element, run.loads⟩

/-- The code that `build_for_in_stmt` emits, on an array.  The length is read
once. -/
def forInLoop (casts : NumericCasts) {name : Ident} (hasScope : Bool)
    (body : List (BodyStep name)) (s : LoopState) : LoopRun :=
  if s.items.length = 0 then ⟨[], .ok s⟩
  else
    match declareLoopVariable casts s.scopes name .typeNil 0 with
    | .error stop => ⟨[], .error (.loop stop)⟩
    | .ok scopes => forInTurns casts hasScope body s.items.length 0 { s with scopes }

/-! ### What the loop is for -/

/-- The variables of the name are what they were. -/
def SameVariables (name : Ident) (before after : ScopeStack) : Prop :=
  List.Forall₂ (fun v w => ∀ x : Variable, v = some x → w = some x) (before.view name)
    (after.view name)

/-- **The contract of the loop** from a state, for a body: no call of the loop itself
ends the process; the elements are visited in order, each of them once unless the
body ends the process; every load gives the element of the turn; and the variables
that had the name before have their values after the loop. -/
structure ForInMeets (casts : NumericCasts) {name : Ident} (body : List (BodyStep name))
    (s : LoopState) : Prop where
  returns : ∀ stop, (forInLoop casts true body s).result ≠ .error (.loop stop)
  in_order : (forInLoop casts true body s).visits.map (·.element) <+: s.items
  loads : ∀ visit ∈ (forInLoop casts true body s).visits, ∀ load ∈ visit.loads,
    load = some visit.element
  complete : ∀ s', (forInLoop casts true body s).result = .ok s' →
    (forInLoop casts true body s).visits.map (·.element) = s.items ∧
      SameVariables name s.scopes s'.scopes

/-- The variable that the loop uses: the visible one of its name, or a new one. -/
def loopVariable (scopes : ScopeStack) (name : Ident) : Variable :=
  (getVariable scopes name).getD ⟨name, .nil, false⟩

/-- **The state is ready** for a loop over these elements. -/
structure ForInReady (scopes : ScopeStack) (name : Ident) (items : List VarValue) : Prop where
  isName : isVariableName name = true
  room : scopes.length < maxScopes
  canDeclare : getVariable scopes name = none →
    ∃ scope rest, scopes = scope :: rest ∧ scope.length < maxVars
  notConst : (loopVariable scopes name).isConst = false
  accepts : ((loopVariable scopes name).value :: items).IsChain VarValue.Accepts
  restored : ∀ v, getVariable scopes name = some v → items.getLast? = some v.value

/-! ### One turn -/

variable {casts : NumericCasts} {name : Ident} {body : List (BodyStep name)} {s s' : LoopState}
  {scopes : ScopeStack} {items : List VarValue} {v : Variable} {view : View} {w e : VarValue}
  {n idx : ℕ}

theorem breadValueArrayGet_of_getElem? (h : items[idx]? = some e) :
    breadValueArrayGet items idx = .ok e := by
  rw [breadValueArrayGet, h]

/-- A body loads one value all the time, and leaves what it has to leave. -/
theorem runBody_spec (body : List (BodyStep name)) (s : LoopState) :
    (∀ load ∈ (runBody body s).loads, load = breadVarLoad s.scopes name) ∧
      ∀ s', (runBody body s).result = .ok s' →
        s'.items = s.items ∧ s'.scopes.view name = s.scopes.view name := by
  induction body generalizing s with
  | nil =>
      refine ⟨by simp [runBody], fun s' hs' => ?_⟩
      cases hs'
      exact ⟨rfl, rfl⟩
  | cons step steps ih =>
      rw [runBody]
      cases hstep : step.act s with
      | error stop => exact ⟨by simp, fun s' hs' => nomatch hs'⟩
      | ok t =>
          obtain ⟨hitems, hview⟩ := step.keeps hstep
          obtain ⟨hloads, hresult⟩ := ih t
          rw [breadVarLoad_congr hview] at hloads
          refine ⟨List.forall_mem_cons.mpr ⟨rfl, hloads⟩, fun s' hs' => ?_⟩
          obtain ⟨hitems', hview'⟩ := hresult s' hs'
          exact ⟨hitems'.trans hitems, hview'.trans hview⟩

theorem loads_runBody_ne_nil (body : List (BodyStep name)) (s : LoopState) :
    (runBody body s).loads ≠ [] := by
  cases body with
  | nil => exact List.cons_ne_nil _ _
  | cons step steps =>
      rw [runBody]
      cases step.act s <;> exact List.cons_ne_nil _ _

/-- The state at a turn: the variable of the loop, which is visible in `view`, has
the value `w`. -/
structure AtTurn (view : View) (w : VarValue) (items : List VarValue) (name : Ident)
    (s : LoopState) : Prop where
  view_eq : s.scopes.view name = view.set w
  items_eq : s.items = items

/-- What is fixed during the loop. -/
structure LoopFrame (view : View) (v : Variable) (name : Ident) : Prop where
  isName : isVariableName name = true
  visible : view.visible = some v
  notConst : v.isConst = false
  room : view.length < maxScopes

theorem AtTurn.length_eq (h : AtTurn view w items name s) : s.scopes.length = view.length := by
  rw [← ScopeStack.length_view name, h.view_eq, View.length_set]

variable (casts) in
/-- The block before the body assigns the element. -/
theorem enterTurn_eq (hframe : LoopFrame view v name) (h : AtTurn view w items name s)
    (he : items[idx]? = some e) :
    ∃ scopes, enterTurn casts name true s idx = .ok (e, scopes) ∧
      ScopeStack.view name scopes = none :: view.set (assignedValue casts w e) := by
  have hroom : ¬ maxScopes ≤ s.scopes.length := by
    rw [h.length_eq]
    exact Nat.not_le.mpr hframe.room
  have hget : getVariable ([] :: s.scopes) name = some { v with value := w } := by
    rw [getVariable_eq hframe.isName, ScopeStack.view_cons, h.view_eq]
    show (View.set view w).visible = _
    rw [View.visible_set, hframe.visible]
    rfl
  refine ⟨(assignFound casts ([] :: s.scopes) { v with value := w } e).2, ?_, ?_⟩
  · rw [enterTurn, h.items_eq, breadValueArrayGet_of_getElem? he]
    simp only [bind, Except.bind, setupLoopScope, pushScope, if_true, if_neg hroom]
    rw [breadVarAssign_of_getVariable hget hframe.notConst]
    rfl
  · rw [view_assignFound hget, ScopeStack.view_cons, h.view_eq]
    show none :: ((view.set w).set _) = _
    rw [View.set_set]

/-- The block after the body leaves the scope of the turn. -/
theorem leaveLoopScope_eq (hframe : LoopFrame view v name)
    (h : ScopeStack.view name scopes = none :: view.set w) :
    ∃ scopes', leaveLoopScope true view.length scopes = .ok scopes' ∧
      ScopeStack.view name scopes' = view.set w := by
  have hlength : scopes.length = view.length + 1 := by
    rw [← ScopeStack.length_view name, h, List.length_cons, View.length_set]
  have hpos : 0 < view.length := by
    cases view with
    | nil => exact absurd hframe.visible (by simp)
    | cons _ _ => exact Nat.succ_pos _
  refine ⟨scopes.drop 1, ?_, ?_⟩
  · rw [leaveLoopScope, if_pos rfl, popToScopeDepth_of_le hpos (by omega), hlength,
      Nat.add_sub_cancel_left]
  · rw [ScopeStack.view_drop, h]
    rfl

variable (casts body n) in
/-- **One turn**: the body loads what the assignment has stored, and then it ends the
process, or the other turns follow. -/
theorem forInTurns_succ (hframe : LoopFrame view v name) (h : AtTurn view w items name s)
    (he : items[idx]? = some e) :
    ∃ loads : List (Option VarValue), loads ≠ [] ∧
      (∀ load ∈ loads, load = some (assignedValue casts w e)) ∧
      ((∃ stop t, (runBody body t).result = .error stop ∧
          forInTurns casts true body (n + 1) idx s = ⟨[⟨e, loads⟩], .error (.body stop)⟩) ∨
        ∃ s', AtTurn view (assignedValue casts w e) items name s' ∧
          forInTurns casts true body (n + 1) idx s =
            (forInTurns casts true body n (idx + 1) s').after ⟨e, loads⟩) := by
  obtain ⟨scopes, henter, hview⟩ := enterTurn_eq casts hframe h he
  obtain ⟨hloads, hresult⟩ := runBody_spec body { s with scopes }
  have hload : breadVarLoad scopes name = some (assignedValue casts w e) := by
    rw [breadVarLoad_eq hframe.isName, hview, View.visible_none, View.visible_set, hframe.visible]
    rfl
  refine ⟨(runBody body { s with scopes }).loads, loads_runBody_ne_nil _ _,
    fun load hmem => (hloads load hmem).trans hload, ?_⟩
  cases hrun : (runBody body { s with scopes }).result with
  | error stop =>
      refine .inl ⟨stop, _, hrun, ?_⟩
      rw [forInTurns, henter]
      simp only [hrun]
  | ok t =>
      obtain ⟨hitems, hviewt⟩ := hresult t hrun
      obtain ⟨scopes', hleave, hview'⟩ := leaveLoopScope_eq hframe (hviewt.trans hview)
      rw [← h.length_eq] at hleave
      refine .inr ⟨{ t with scopes := scopes' }, ⟨hview', hitems.trans h.items_eq⟩, ?_⟩
      rw [forInTurns, henter]
      simp only [hrun, hleave]

/-! ### All turns -/

/-- What the turns over the remaining elements do, from a state in which the variable
has the value `w`, whether or not it takes the elements as they are. -/
structure TurnsDone (casts : NumericCasts) (name : Ident) (view : View) (w : VarValue)
    (rest : List VarValue) (run : LoopRun) : Prop where
  returns : ∀ stop, run.result ≠ .error (.loop stop)
  in_order : run.visits.map (·.element) <+: rest
  complete : ∀ s', run.result = .ok s' → run.visits.map (·.element) = rest ∧
    s'.scopes.view name = view.set (rest.foldl (assignedValue casts) w)

/-- Every load of a turn gives its element. -/
def LoopRun.LoadsElements (run : LoopRun) : Prop :=
  ∀ visit ∈ run.visits, ∀ load ∈ visit.loads, load = some visit.element

theorem LoopRun.loadsElements_after {visit : Visit} {run : LoopRun} :
    (run.after visit).LoadsElements ↔
      (∀ load ∈ visit.loads, load = some visit.element) ∧ run.LoadsElements :=
  List.forall_mem_cons

theorem TurnsDone.after {rest : List VarValue} {run : LoopRun} {loads : List (Option VarValue)}
    (h : TurnsDone casts name view (assignedValue casts w e) rest run) :
    TurnsDone casts name view w (e :: rest) (run.after ⟨e, loads⟩) where
  returns := h.returns
  in_order := List.prefix_cons_inj e |>.mpr h.in_order
  complete := by
    intro s' hs'
    obtain ⟨helements, hview⟩ := h.complete s' hs'
    exact ⟨congrArg (e :: ·) helements, hview⟩

private theorem drop_of_remaining (h : idx + (n + 1) = items.length) :
    ∃ e, items[idx]? = some e ∧ items.drop idx = e :: items.drop (idx + 1) := by
  have hlt : idx < items.length := by omega
  exact ⟨items[idx], List.getElem?_eq_getElem hlt, List.drop_eq_getElem_cons hlt⟩

variable (casts) in
/-- The turns visit the remaining elements in order, and the loop does not end the
process.  The induction is on the turns that remain. -/
theorem turnsDone_forInTurns (body : List (BodyStep name)) (hframe : LoopFrame view v name)
    (h : AtTurn view w items name s) (hn : idx + n = items.length) :
    TurnsDone casts name view w (items.drop idx) (forInTurns casts true body n idx s) := by
  induction n generalizing idx w s with
  | zero =>
      rw [List.drop_eq_nil_of_le (by omega)]
      refine ⟨fun stop => by simp [forInTurns], List.nil_prefix, fun s' hs' => ?_⟩
      cases hs'
      exact ⟨rfl, h.view_eq⟩
  | succ n ih =>
      obtain ⟨e, he, hdrop⟩ := drop_of_remaining hn
      obtain ⟨loads, -, -, hstop | ⟨s', hs', hturn⟩⟩ :=
        forInTurns_succ casts body n hframe h he
      · obtain ⟨stop, t, -, hturn⟩ := hstop
        rw [hturn, hdrop]
        exact ⟨fun _ => by simp, List.prefix_cons_inj e |>.mpr List.nil_prefix,
          fun s' hs' => nomatch hs'⟩
      · rw [hturn, hdrop]
        exact (ih hs' (by omega)).after

variable (casts) in
/-- When the variable takes every element as it is, the loads give the elements. -/
theorem loadsElements_forInTurns (body : List (BodyStep name)) (hframe : LoopFrame view v name)
    (h : AtTurn view w items name s) (hn : idx + n = items.length)
    (hchain : (w :: items.drop idx).IsChain VarValue.Accepts) :
    (forInTurns casts true body n idx s).LoadsElements := by
  induction n generalizing idx w s with
  | zero =>
      intro visit hvisit
      cases hvisit
  | succ n ih =>
      obtain ⟨e, he, hdrop⟩ := drop_of_remaining hn
      rw [hdrop, List.isChain_cons_cons] at hchain
      obtain ⟨haccepts, hchain⟩ := hchain
      obtain ⟨loads, -, hloads, hrest⟩ :=
        forInTurns_succ casts body n hframe h he
      rw [assignedValue_eq_iff.mpr haccepts] at hloads hrest
      rcases hrest with ⟨stop, t, -, hturn⟩ | ⟨s', hs', hturn⟩
      · rw [hturn]
        exact List.forall_mem_singleton.mpr hloads
      · rw [hturn, LoopRun.loadsElements_after]
        exact ⟨hloads, ih hs' (by omega) hchain⟩

/-- With a body that only loads the variable, the loads give the elements only when
the variable takes every element as it is. -/
theorem isChain_of_loadsElements (hframe : LoopFrame view v name)
    (h : AtTurn view w items name s) (hn : idx + n = items.length)
    (hloads : (forInTurns casts true ([] : List (BodyStep name)) n idx s).LoadsElements) :
    (w :: items.drop idx).IsChain VarValue.Accepts ∧
      ∃ s', (forInTurns casts true ([] : List (BodyStep name)) n idx s).result = .ok s' := by
  induction n generalizing idx w s with
  | zero =>
      rw [List.drop_eq_nil_of_le (by omega)]
      exact ⟨.singleton _, s, rfl⟩
  | succ n ih =>
      obtain ⟨e, he, hdrop⟩ := drop_of_remaining hn
      obtain ⟨loads, hne, hstored, ⟨stop, t, ht, -⟩ | ⟨s', hs', hturn⟩⟩ :=
        forInTurns_succ casts ([] : List (BodyStep name)) n hframe h he
      · cases ht
      · rw [hturn, LoopRun.loadsElements_after] at hloads
        obtain ⟨hfirst, hlater⟩ := hloads
        obtain ⟨load, hload⟩ := List.exists_mem_of_ne_nil loads hne
        have hsame : assignedValue casts w e = e :=
          Option.some.inj ((hstored load hload).symm.trans (hfirst load hload))
        rw [hsame] at hs'
        obtain ⟨hchain, hresult⟩ := ih hs' (by omega) hlater
        rw [hdrop, List.isChain_cons_cons, hturn]
        exact ⟨⟨assignedValue_eq_iff.mp hsame, hchain⟩, hresult⟩

/-- The last value that is assigned is the one that stays. -/
theorem foldl_assignedValue {rest : List VarValue}
    (hchain : (w :: rest).IsChain VarValue.Accepts) :
    rest.foldl (assignedValue casts) w = rest.getLast?.getD w := by
  induction rest generalizing w with
  | nil => rfl
  | cons e rest ih =>
      rw [List.isChain_cons_cons] at hchain
      rw [List.foldl_cons, assignedValue_eq_iff.mpr hchain.1, ih hchain.2, List.getLast?_cons]
      rfl

/-! ### The declaration of the variable -/

theorem View.forall₂_of_visible_none {view' : View} (h : view.visible = none)
    (hlength : view.length = view'.length) :
    List.Forall₂ (fun v w => ∀ x : Variable, v = some x → w = some x) view view' := by
  induction view generalizing view' with
  | nil =>
      rw [List.length_nil, eq_comm, List.length_eq_zero_iff] at hlength
      rw [hlength]
      exact .nil
  | cons v view ih =>
      cases view' with
      | nil => simp at hlength
      | cons w view' =>
          cases v with
          | some v => simp at h
          | none => exact .cons (fun x hx => nomatch hx) (ih h (Nat.succ.inj hlength))

/-- A stack in which no variable of the name is visible has none in any scope. -/
theorem find_of_getVariable_eq_none {scope : VarScope} {rest : ScopeStack}
    (hname : isVariableName name = true) (h : getVariable (scope :: rest) name = none) :
    scope.find name = none := by
  rw [getVariable_eq hname, ScopeStack.view_cons] at h
  cases hfind : scope.find name with
  | none => rfl
  | some v => simp [hfind] at h

variable (casts) in
/-- The declaration before the turns makes the variable of the loop visible. -/
theorem declareLoopVariable_eq (hname : isVariableName name = true)
    (hdeclare : getVariable scopes name = none →
      ∃ scope rest, scopes = scope :: rest ∧ scope.length < maxVars) :
    ∃ scopes', declareLoopVariable casts scopes name .typeNil 0 = .ok scopes' ∧
      (ScopeStack.view name scopes').visible = some (loopVariable scopes name) ∧
      scopes'.length = scopes.length ∧
      ∀ v, getVariable scopes name = some v → scopes' = scopes := by
  unfold declareLoopVariable breadVarDeclIfMissing loopVariable
  cases hget : getVariable scopes name with
  | some v =>
      rw [getVariable_eq hname] at hget
      exact ⟨scopes, rfl, hget, rfl, fun _ _ => rfl⟩
  | none =>
      obtain ⟨scope, rest, rfl, hroom⟩ := hdeclare hget
      have hfind := find_of_getVariable_eq_none hname hget
      have hdecl := breadVarDecl_nil rest casts hname hfind hroom
      refine ⟨(scope ++ [⟨name, .nil, false⟩]) :: rest, ?_, ?_, rfl, fun v hv => nomatch hv⟩
      · show (·.2) <$> breadVarDecl casts _ _ _ _ (some .nil) = _
        rw [hdecl]
        rfl
      · rw [ScopeStack.view_cons, VarScope.find_append_of_none hfind rfl]
        rfl

/-! ### The contract -/

theorem forInLoop_of_declare (hitems : s.items ≠ [])
    (h : declareLoopVariable casts s.scopes name .typeNil 0 = .ok scopes) :
    forInLoop casts true body s =
      forInTurns casts true body s.items.length 0 { s with scopes } := by
  rw [forInLoop, if_neg (by simpa using hitems), h]

/-- The variables of the name after a loop from a state that is ready. -/
theorem sameVariables_of_last {scopes₁ : ScopeStack} {value : VarValue}
    (hname : isVariableName name = true) (hlength : scopes₁.length = s.scopes.length)
    (hsame : ∀ v, getVariable s.scopes name = some v → scopes₁ = s.scopes ∧ value = v.value)
    (hview : s'.scopes.view name = (scopes₁.view name).set value) :
    SameVariables name s.scopes s'.scopes := by
  unfold SameVariables
  rw [hview]
  cases hget : getVariable s.scopes name with
  | some v =>
      obtain ⟨rfl, rfl⟩ := hsame v hget
      rw [getVariable_eq hname] at hget
      rw [View.set_value hget]
      exact List.forall₂_same.mpr fun _ _ _ h => h
  | none =>
      rw [getVariable_eq hname] at hget
      refine View.forall₂_of_visible_none hget ?_
      rw [View.length_set, ScopeStack.length_view, ScopeStack.length_view, hlength]

/-- **A loop from a state that is ready** meets its contract. -/
theorem forInMeets_of_ready (h : ForInReady s.scopes name s.items) (hitems : s.items ≠ [])
    (body : List (BodyStep name)) : ForInMeets casts body s := by
  obtain ⟨scopes₁, hdeclare, hvisible, hlength, hkept⟩ :=
    declareLoopVariable_eq casts h.isName h.canDeclare
  have hframe : LoopFrame (scopes₁.view name) (loopVariable s.scopes name) name :=
    ⟨h.isName, hvisible, h.notConst, by
      rw [ScopeStack.length_view, hlength]
      exact h.room⟩
  have hturn : AtTurn (scopes₁.view name) (loopVariable s.scopes name).value s.items name
      { s with scopes := scopes₁ } := ⟨(View.set_value hvisible).symm, rfl⟩
  have hdone := turnsDone_forInTurns casts body hframe hturn (Nat.zero_add _)
  have hloads := loadsElements_forInTurns casts body hframe hturn (Nat.zero_add _)
    h.accepts
  rw [← forInLoop_of_declare hitems hdeclare] at hdone hloads
  refine ⟨hdone.returns, hdone.in_order, hloads, fun s' hs' => ?_⟩
  obtain ⟨helements, hview⟩ := hdone.complete s' hs'
  refine ⟨helements, sameVariables_of_last h.isName hlength (fun v hv => ⟨hkept v hv, ?_⟩) hview⟩
  rw [List.drop_zero, foldl_assignedValue h.accepts, h.restored v hv]
  rfl

/-- A turn that is entered has found its element, has room for its scope, and has not
met a constant. -/
theorem enterTurn_eq_ok (h : enterTurn casts name true s idx = .ok (e, scopes)) :
    s.scopes.length < maxScopes ∧
      ∃ assigned, breadVarAssign casts ([] :: s.scopes) name e = .ok assigned ∧
        assigned.2 = scopes := by
  unfold enterTurn at h
  obtain ⟨element, -, h⟩ := bind_eq_ok.mp h
  obtain ⟨pushed, hpush, h⟩ := bind_eq_ok.mp h
  obtain ⟨assigned, hassign, h⟩ := bind_eq_ok.mp h
  cases h
  rw [setupLoopScope, if_pos rfl, pushScope] at hpush
  by_cases hroom : maxScopes ≤ s.scopes.length
  · rw [if_pos hroom] at hpush
    cases hpush
  · rw [if_neg hroom] at hpush
    cases hpush
    exact ⟨Nat.not_le.mp hroom, assigned, hassign, rfl⟩

theorem not_isConst_of_breadVarAssign {assigned : Bool × ScopeStack}
    (h : breadVarAssign casts scopes name e = .ok assigned)
    (hv : getVariable scopes name = some v) : v.isConst = false := by
  rw [breadVarAssign, hv] at h
  cases hconst : v.isConst with
  | false => rfl
  | true =>
      simp only [hconst, if_true] at h
      cases h

/-- A loop that does not end the process enters its first turn, whose body loads the
variable. -/
theorem exists_visit_of_returns
    (h : ∀ stop, (forInTurns casts true ([] : List (BodyStep name)) (n + 1) idx s).result ≠
      .error (.loop stop)) :
    ∃ element scopes, enterTurn casts name true s idx = .ok (element, scopes) ∧
      ∃ visit ∈ (forInTurns casts true ([] : List (BodyStep name)) (n + 1) idx s).visits,
        breadVarLoad scopes name ∈ visit.loads := by
  rw [forInTurns] at h ⊢
  cases henter : enterTurn casts name true s idx with
  | error stop =>
      rw [henter] at h
      exact absurd rfl (h stop)
  | ok entered =>
      obtain ⟨element, scopes⟩ := entered
      refine ⟨element, scopes, rfl, ⟨element, [breadVarLoad scopes name]⟩, ?_,
        List.mem_singleton_self _⟩
      simp only [runBody]
      cases leaveLoopScope true s.scopes.length scopes with
      | error stop => exact List.mem_singleton_self _
      | ok scopes' => exact List.mem_cons_self

theorem exists_cons_of_declareVariableRaw {type : VarType} {isConst : Bool}
    {scopes' : ScopeStack} (h : declareVariableRaw scopes name type isConst = .ok scopes') :
    ∃ scope rest, scopes = scope :: rest ∧ scope.length < maxVars := by
  cases scopes with
  | nil => cases h
  | cons scope rest =>
      refine ⟨scope, rest, rfl, Nat.not_le.mp fun hfull => ?_⟩
      simp only [declareVariableRaw, if_pos hfull] at h
      split at h <;> cases h

/-- **A loop that meets its contract** with the body that only loads the variable
starts from a state that is ready. -/
theorem forInReady_of_meets (hitems : s.items ≠ [])
    (h : ForInMeets casts ([] : List (BodyStep name)) s) :
    ForInReady s.scopes name s.items := by
  obtain ⟨hreturns, -, hloads, hcomplete⟩ := h
  cases hdeclare : declareLoopVariable casts s.scopes name .typeNil 0 with
  | error stop =>
      rw [forInLoop, if_neg (by simpa using hitems), hdeclare] at hreturns
      exact absurd rfl (hreturns stop)
  | ok scopes₁ =>
  rw [forInLoop_of_declare hitems hdeclare] at hreturns hloads hcomplete
  obtain ⟨n, hn⟩ := Nat.exists_eq_succ_of_ne_zero (mt List.length_eq_zero_iff.mp hitems)
  rw [hn] at hreturns hloads hcomplete
  obtain ⟨element, scopes, henter, visit, hvisit, hload⟩ := exists_visit_of_returns hreturns
  obtain ⟨hroom, assigned, hassign, rfl⟩ := enterTurn_eq_ok henter
  have hname : isVariableName name = true := by
    cases hname : isVariableName name with
    | true => rfl
    | false =>
        have hnone := hloads visit hvisit _ hload
        rw [breadVarLoad, getVariable_of_not hname] at hnone
        cases hnone
  have hdeclared : getVariable s.scopes name = none →
      ∃ scope rest, s.scopes = scope :: rest ∧ scope.length < maxVars := by
    intro hget
    unfold declareLoopVariable breadVarDeclIfMissing breadVarDecl at hdeclare
    rw [hget] at hdeclare
    cases hraw : declareVariableRaw s.scopes name .typeNil false with
    | error stop =>
        simp only [hraw] at hdeclare
        cases hdeclare
    | ok scopes => exact exists_cons_of_declareVariableRaw hraw
  obtain ⟨scopes', hdeclare', hvisible, hlength, hkept⟩ :=
    declareLoopVariable_eq casts hname hdeclared
  obtain rfl : scopes₁ = scopes' := Except.ok.inj (hdeclare.symm.trans hdeclare')
  have hget : getVariable ([] :: scopes₁) name = some (loopVariable s.scopes name) := by
    rw [getVariable_eq hname]
    exact hvisible
  have hconst := not_isConst_of_breadVarAssign hassign hget
  have hframe : LoopFrame (scopes₁.view name) (loopVariable s.scopes name) name :=
    ⟨hname, hvisible, hconst, by
      rw [ScopeStack.length_view]
      exact hroom⟩
  have hturn : AtTurn (scopes₁.view name) (loopVariable s.scopes name).value s.items name
      { s with scopes := scopes₁ } := ⟨(View.set_value hvisible).symm, rfl⟩
  have hcount : 0 + (n + 1) = s.items.length := by omega
  obtain ⟨hchain, s', hs'⟩ := isChain_of_loadsElements hframe hturn hcount hloads
  rw [List.drop_zero] at hchain
  have hdone := turnsDone_forInTurns casts ([] : List (BodyStep name)) hframe hturn
    hcount
  refine ⟨hname, hlength ▸ hroom, hdeclared, hconst, hchain, fun v hv => ?_⟩
  -- the loop has left the last element in a variable that has to be unchanged
  have hsame := (hcomplete s' hs').2
  rw [SameVariables, (hdone.complete s' hs').2, hkept v hv, List.drop_zero,
    foldl_assignedValue hchain] at hsame
  rw [getVariable_eq hname] at hv
  rw [View.visible_eq_of_forall₂_set hv hsame]
  rw [List.getLast?_eq_some_getLast hitems]
  rfl

/-- **When a `for`-`in` loop does what it is for.**  Whatever the body does, as long
as it leaves the loop variable and the array alone, the loop meets its contract
exactly when the array is empty or the state is ready. -/
theorem forIn_meets_iff (casts : NumericCasts) (name : Ident) (s : LoopState) :
    (∀ body : List (BodyStep name), ForInMeets casts body s) ↔
      s.items = [] ∨ ForInReady s.scopes name s.items := by
  by_cases hitems : s.items = []
  · have hloop (body : List (BodyStep name)) : forInLoop casts true body s = ⟨[], .ok s⟩ := by
      rw [forInLoop, if_pos (by simp [hitems])]
    refine ⟨fun _ => .inl hitems, fun _ body => ?_⟩
    refine ⟨by simp [hloop], by simp [hloop], by simp [hloop], fun s' hs' => ?_⟩
    rw [hloop] at hs' ⊢
    cases hs'
    exact ⟨hitems.symm, List.forall₂_same.mpr fun _ _ _ h => h⟩
  · constructor
    · exact fun h => .inr (forInReady_of_meets hitems (h []))
    · rintro (hnil | hready) body
      · exact absurd hnil hitems
      · exact forInMeets_of_ready hready hitems body

/-- A loop over `[1, 2]` whose variable has the name of a variable with the value 10
leaves 2 in it. -/
theorem forIn_changes_outer_variable :
    ¬ ∀ (casts : NumericCasts) (name : Ident) (s : LoopState) (body : List (BodyStep name)),
      ForInMeets casts body s := by
  intro h
  have hmeets := h zeroCasts "x".toList ⟨[[⟨"x".toList, .int 10, false⟩]], [.int 1, .int 2]⟩ []
  have hready := forInReady_of_meets (by simp) hmeets
  have hlast := hready.restored ⟨"x".toList, .int 10, false⟩ (by decide)
  revert hlast
  decide

end BreadLang
