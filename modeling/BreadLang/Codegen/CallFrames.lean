import BreadLang.Codegen.Activation
import BreadLang.Codegen.Semantic
import BreadLang.Codegen.Stmt

/-!
# What a call leaves of its caller

The variables of the runtime belong to nobody: a function that assigns its loop
variable assigns whatever variable of that name is visible, and a global that it
reads is the first variable of that name on the stack, which may be its caller's.

`call_leaves_caller` is about runs all of whose calls are safe: at each call, none of
the names that the code of the callee assigns is visible, and none of those that it
reads belongs to a variable of a caller.  After such a call the stack of scopes is
what it was, and every name that was used has been resolved to a variable of the
activation that used it or to a global.

The invariant of the run of an activation is `Framed`: the scopes that it found are
still there, as they were, under its own.
-/

namespace BreadLang

open Stateful

/-! ### The names that code uses -/

/-- A use of a variable of the runtime. -/
inductive NameUse where
  | read (name : Ident)
  | write (name : Ident)
  deriving DecidableEq

/-- The name that is used. -/
def NameUse.name : NameUse → Ident
  | .read name => name
  | .write name => name

mutual

/-- The names that the code of an expression reads. -/
def Code.uses : Code → List NameUse
  | .op _ args => codesUses args
  | .varLoad name => [.read name]
  | .callFunction _ args => codesUses args
  | .callMethod _ self args => self.uses ++ codesUses args
  | .methodCallOp target _ args _ => target.uses ++ codesUses args
  | .superInit _ args => codesUses args
  | .newInstance _ _ _ _ (some args) => codesUses args
  | .newInstance _ _ _ _ none => []
  | .seq first second => first.uses ++ second.uses
  | .load _ _ | .cloneSlot _ | .slot _ | .selfParam | .cloneSelf => []

def codesUses : List Code → List NameUse
  | [] => []
  | code :: rest => code.uses ++ codesUses rest

end

/-- The names that the code of a value reads. -/
def CgValue.uses : CgValue → List NameUse
  | .boxed none => []
  | .boxed (some code) => code.uses
  | .unboxed _ code => code.uses

mutual

/-- The names that the code of a statement uses.  A loop variable is assigned. -/
def CodeStmt.uses : CodeStmt → List NameUse
  | .eval value | .print value | .ret value => value.uses
  | .storeSlot _ value _ => value.uses
  | .storeUnboxed _ _ value _ => value.uses
  | .varDecl _ _ _ value => value.uses
  | .varAssign name value => .write name :: value.uses
  | .indexSet index target value | .indexUpdate index target _ value =>
      index.uses ++ target.uses ++ value.uses
  | .memberSet target _ value | .memberUpdate target _ _ value => target.uses ++ value.uses
  | .ifThenElse condition _ thenCode (some elseCode) =>
      condition.uses ++ stmtsUses thenCode ++ stmtsUses elseCode
  | .ifThenElse condition _ thenCode none => condition.uses ++ stmtsUses thenCode
  | .whileLoop condition _ body => condition.uses ++ stmtsUses body
  | .forRange name _ _ _ _ body => .write name :: stmtsUses body
  | .forIn name iterable _ _ body => .write name :: iterable.uses ++ stmtsUses body
  | .breakLoop _ | .continueLoop _ | .truncated => []

def stmtsUses : List CodeStmt → List NameUse
  | [] => []
  | s :: rest => s.uses ++ stmtsUses rest

end

/-- The names that the code of a function uses. -/
def CodeBody.uses (body : CodeBody) : List NameUse :=
  stmtsUses body.code

theorem uses_subset_codesUses {code : Code} {codes : List Code} (h : code ∈ codes) :
    code.uses ⊆ codesUses codes := by
  induction codes with
  | nil => cases h
  | cons c codes ih =>
      rw [codesUses]
      rcases List.mem_cons.mp h with rfl | h
      · exact List.subset_append_left _ _
      · exact List.Subset.trans (ih h) (List.subset_append_right _ _)

/-! ### Safe calls -/

/-- A name that is written is not visible in the scopes at the call, and one that is
read is not visible in those above the global one. -/
def NameUse.SafeAt (scopes : ScopeStack) : NameUse → Prop
  | .read name => getVariable scopes.dropLast name = none
  | .write name => getVariable scopes name = none

instance (scopes : ScopeStack) : DecidablePred (NameUse.SafeAt scopes)
  | .read _ => inferInstanceAs (Decidable (_ = _))
  | .write _ => inferInstanceAs (Decidable (_ = _))

/-- **A call is safe** when every name that the code of the callee uses is. -/
def CallSafe (body : CodeBody) (scopes : ScopeStack) : Prop :=
  ∀ use ∈ body.uses, use.SafeAt scopes

instance (body : CodeBody) (scopes : ScopeStack) : Decidable (CallSafe body scopes) :=
  inferInstanceAs (Decidable (∀ use ∈ body.uses, use.SafeAt scopes))

/-- **A use of a name is resolved** to a variable of the activation or to a global:
when no scope of the activation has the name, no scope of its callers has, the global
one apart. -/
def Resolves (name : Ident) (scopes : ScopeStack) (base : ℕ) : Prop :=
  getVariable (scopes.take (scopes.length - base)) name = none →
    getVariable (scopes.drop (scopes.length - base)).dropLast name = none

/-- The call is safe, if the event is one. -/
def FrameEvent.IsSafe : FrameEvent → Prop
  | .called body scopes => CallSafe body scopes
  | .used _ _ _ => True

/-- The name is resolved, if the event is a use of one. -/
def FrameEvent.IsResolved : FrameEvent → Prop
  | .called _ _ => True
  | .used name scopes base => Resolves name scopes base

instance : DecidablePred FrameEvent.IsSafe
  | .called body scopes => inferInstanceAs (Decidable (CallSafe body scopes))
  | .used _ _ _ => inferInstanceAs (Decidable True)

/-- Every call of the run is safe. -/
abbrev CallsSafe (trace : List FrameEvent) : Prop :=
  ∀ event ∈ trace, event.IsSafe

/-- Every use of the run is resolved. -/
abbrev NamesResolve (trace : List FrameEvent) : Prop :=
  ∀ event ∈ trace, event.IsResolved

variable {trace past : List FrameEvent} {scopes s : ScopeStack} {name : Ident} {base : ℕ}
  {body : CodeBody} {casts : NumericCasts} {module : List CodeBody}

theorem CallsSafe.of_suffix (h : CallsSafe trace) (hpast : past <:+ trace) : CallsSafe past :=
  fun event hmem => h event (hpast.subset hmem)

theorem CallsSafe.callSafe (h : CallsSafe trace) (hmem : .called body scopes ∈ trace) :
    CallSafe body scopes :=
  h _ hmem

theorem NamesResolve.called (h : NamesResolve trace) :
    NamesResolve (.called body scopes :: trace) :=
  List.forall_mem_cons.mpr ⟨trivial, h⟩

theorem NamesResolve.used (h : NamesResolve trace) (hname : Resolves name scopes base) :
    NamesResolve (.used name scopes base :: trace) :=
  List.forall_mem_cons.mpr ⟨hname, h⟩

/-! ### Runtime calls above a part of the stack -/

theorem getVariable_dropLast (h : getVariable scopes name = none) :
    getVariable scopes.dropLast name = none := by
  cases hname : isVariableName name with
  | false => exact getVariable_of_not hname
  | true =>
      rw [getVariable, if_pos hname, List.findSome?_eq_none_iff] at h ⊢
      exact fun scope hmem => h scope ((List.dropLast_sublist scopes).subset hmem)

/-- A use that was safe at the call of the activation is resolved. -/
theorem NameUse.SafeAt.resolves {use : NameUse} (h : use.SafeAt s) (hs : s <:+ scopes) :
    Resolves use.name scopes s.length := by
  intro _
  obtain ⟨own, rfl⟩ := hs
  rw [List.length_append, Nat.add_sub_cancel, List.drop_left]
  cases use with
  | read name => exact h
  | write name => exact getVariable_dropLast h

/-- A write to a variable that is not in the lower part of the stack. -/
theorem suffix_setVariable {value : VarValue} (hname : isVariableName name = true)
    (hs : s <:+ scopes) (hnone : getVariable s name = none) :
    s <:+ setVariable scopes name value := by
  obtain ⟨own, rfl⟩ := hs
  have hscopes : ∀ scope ∈ s, VarScope.find scope name = none := by
    rw [getVariable, if_pos hname, List.findSome?_eq_none_iff] at hnone
    exact hnone
  have hlower : setVariable s name value = s := by
    clear hnone
    induction s with
    | nil => rfl
    | cons scope s ih =>
        rw [setVariable, hscopes scope List.mem_cons_self, if_neg (by simp),
          ih fun t ht => hscopes t (List.mem_cons_of_mem _ ht)]
  induction own with
  | nil =>
      rw [List.nil_append, hlower]
  | cons scope own ih =>
      rw [List.cons_append, setVariable]
      split
      · exact (List.suffix_append own s).trans (List.suffix_cons _ _)
      · exact ih.trans (List.suffix_cons _ _)

theorem assignFound_suffix {v : Variable} {value : VarValue} (hv : getVariable scopes name = some v)
    (hs : s <:+ scopes) (hnone : getVariable s name = none) :
    s <:+ (assignFound casts scopes v value).2 := by
  unfold assignFound
  cases coerceAndAssign casts v.value value with
  | none => exact hs
  | some stored =>
      rw [name_of_getVariable hv]
      exact suffix_setVariable (isVariableName_of_getVariable hv) hs hnone

theorem length_assignFound (v : Variable) (value : VarValue) :
    (assignFound casts scopes v value).2.length = scopes.length := by
  unfold assignFound
  cases coerceAndAssign casts v.value value with
  | none => rfl
  | some stored => exact length_setVariable _ _ _

theorem breadVarAssign_suffix {value : VarValue} {r : Bool × ScopeStack}
    (h : breadVarAssign casts scopes name value = .ok r) :
    r.2.length = scopes.length ∧
      (s <:+ scopes → getVariable s name = none → s <:+ r.2) := by
  unfold breadVarAssign at h
  cases hv : getVariable scopes name with
  | none =>
      rw [hv] at h
      cases h
      exact ⟨rfl, fun hs _ => hs⟩
  | some v =>
      simp only [hv] at h
      split at h
      · cases h
      · cases h
        exact ⟨length_assignFound v value, fun hs hnone => assignFound_suffix hv hs hnone⟩

/-- A declaration changes the innermost scope only. -/
theorem breadVarDecl_tail {type : VarType} {isConst : Bool} {init : Option VarValue}
    {r : Bool × ScopeStack} (h : breadVarDecl casts scopes name type isConst init = .ok r) :
    r.2.length = scopes.length ∧ r.2.tail = scopes.tail := by
  obtain ⟨declared, hdeclared, h⟩ := bind_eq_ok.mp h
  have hraw : ∃ scope rest, scopes = scope :: rest ∧
      declared = (scope ++ [⟨name, type.zero, isConst⟩]) :: rest := by
    unfold declareVariableRaw at hdeclared
    cases scopes with
    | nil => cases hdeclared
    | cons scope rest =>
        refine ⟨scope, rest, rfl, ?_⟩
        simp only at hdeclared
        split at hdeclared
        · cases hdeclared
        · split at hdeclared
          · cases hdeclared
          · split at hdeclared
            · cases hdeclared
            · cases hdeclared
              rfl
  obtain ⟨scope, rest, rfl, rfl⟩ := hraw
  cases init with
  | none =>
      cases h
      exact ⟨rfl, rfl⟩
  | some value =>
      cases hv : getVariable ((scope ++ [⟨name, type.zero, isConst⟩]) :: rest) name with
      | none =>
          simp only [hv] at h
          cases h
          exact ⟨rfl, rfl⟩
      | some v =>
          simp only [hv] at h
          cases h
          refine ⟨length_assignFound v value, ?_⟩
          unfold assignFound
          cases coerceAndAssign casts v.value value with
          | none => rfl
          | some stored =>
              -- the variable that has been declared is the visible one
              have hfind : (VarScope.find (scope ++ [⟨name, type.zero, isConst⟩]) name).isSome := by
                simp [VarScope.find]
              rw [name_of_getVariable hv]
              simp only [setVariable, hfind, if_true, List.tail_cons]

theorem suffix_of_tail {scopes' : ScopeStack} (htail : scopes'.tail = scopes.tail)
    (hdeep : s.length < scopes.length) (hs : s <:+ scopes) : s <:+ scopes' := by
  cases scopes with
  | nil => simp at hdeep
  | cons scope rest =>
      rcases List.suffix_cons_iff.mp hs with rfl | hs
      · exact absurd hdeep (Nat.lt_irrefl _)
      · rw [List.tail_cons] at htail
        rw [← htail] at hs
        exact hs.trans (List.tail_suffix _)

theorem breadVarDeclIfMissing_tail {type : VarType} {isConst : Bool} {init : Option VarValue}
    {r : Bool × ScopeStack}
    (h : breadVarDeclIfMissing casts scopes name type isConst init = .ok r) :
    r.2.length = scopes.length ∧ r.2.tail = scopes.tail := by
  unfold breadVarDeclIfMissing at h
  cases hv : getVariable scopes name with
  | none =>
      rw [hv] at h
      exact breadVarDecl_tail h
  | some v =>
      rw [hv] at h
      cases h
      exact ⟨rfl, rfl⟩

theorem popToScopeDepth_eq_ok {target : ℕ} {scopes' : ScopeStack}
    (h : popToScopeDepth scopes target = .ok scopes') :
    scopes'.length = target ∧ scopes' <:+ scopes := by
  unfold popToScopeDepth at h
  split at h
  · cases h
  · split at h
    · cases h
    · cases h
      refine ⟨?_, List.drop_suffix _ _⟩
      rw [List.length_drop]
      omega

/-! ### The run of an activation -/

/-- **The run of an activation** that has found the scopes `s`: they are under its own
scopes, and as long as all calls have been safe they are what they were and every name
has been resolved.  `past` are the events up to the call. -/
structure Framed (past : List FrameEvent) (s : ScopeStack) (m : VarMachine) : Prop where
  grown : past <:+ m.trace
  deeper : s.length < m.scopes.length
  kept : CallsSafe m.trace → s <:+ m.scopes ∧ NamesResolve m.trace

variable {r : Runner} {act : Activation} {m : VarMachine}

/-- A step that changes neither the scopes nor the events. -/
theorem Framed.congr {m' : VarMachine} (h : Framed past s m) (hscopes : m'.scopes = m.scopes)
    (htrace : m'.trace = m.trace) : Framed past s m' where
  grown := htrace ▸ h.grown
  deeper := hscopes ▸ h.deeper
  kept := by
    rw [hscopes, htrace]
    exact h.kept

theorem framed_choose : Keeps (Framed past s) choose :=
  keeps_modifyGet fun _ h => h.congr rfl rfl

theorem framed_computed : Keeps (Framed past s) computed :=
  keeps_map framed_choose

theorem framed_storeInto (slot : StackSlot) (value : VarValue) :
    Keeps (Framed past s) (storeInto slot value) :=
  keeps_modify fun _ h => h.congr rfl rfl

theorem framed_loadFrom (slot : StackSlot) : Keeps (Framed past s) (loadFrom slot) :=
  keeps_reads _

/-- A runtime call that keeps the lower part of the stack. -/
theorem framed_onScopes {f : ScopeStack → Exec ScopeStack}
    (hf : ∀ scopes scopes', s.length < scopes.length → f scopes = .ok scopes' →
      s.length < scopes'.length ∧ (CallsSafe past → s <:+ scopes → s <:+ scopes')) :
    Keeps (Framed past s) (onScopes f) := by
  intro m h
  unfold onScopes
  rw [final_bind, result_reads, final_reads]
  cases hscopes : f m.scopes with
  | error stop => exact h
  | ok scopes' =>
      obtain ⟨hdeeper, hkept⟩ := hf m.scopes scopes' h.deeper hscopes
      refine ⟨h.grown, hdeeper, fun hsafe => ?_⟩
      obtain ⟨hs, hresolve⟩ := h.kept hsafe
      exact ⟨hkept (hsafe.of_suffix h.grown) hs, hresolve⟩

section OnScopes

variable {f : ScopeStack → Exec ScopeStack} {stop : Stop} {scopes' : ScopeStack}

theorem result_onScopes_of_ok (h : f m.scopes = .ok scopes') :
    (onScopes f).result m = .ok () := by
  unfold onScopes
  rw [result_bind, result_reads, h]
  rfl

theorem final_onScopes_of_ok (h : f m.scopes = .ok scopes') :
    (onScopes f).final m = { m with scopes := scopes' } := by
  unfold onScopes
  rw [final_bind, result_reads, h]
  rfl

theorem result_onScopes_of_error (h : f m.scopes = .error stop) :
    (onScopes f).result m = .error (.stop stop) := by
  unfold onScopes
  rw [result_bind, result_reads, h]
  rfl

theorem final_onScopes_of_error (h : f m.scopes = .error stop) : (onScopes f).final m = m := by
  unfold onScopes
  rw [final_bind, result_reads, h]
  rfl

end OnScopes

section Activation

variable (hentered : .called body s ∈ past)

include hentered

/-- What the activation uses was safe at its call. -/
theorem safeAt_of_callsSafe {use : NameUse} (huse : use ∈ body.uses) (h : CallsSafe past) :
    use.SafeAt s :=
  h.callSafe hentered use huse

theorem framed_useName {use : NameUse} (huse : use ∈ body.uses) :
    Keeps (Framed past s) (useName s.length use.name) := by
  intro m h
  show Framed past s { m with trace := .used use.name m.scopes s.length :: m.trace }
  refine ⟨h.grown.trans (List.suffix_cons _ _), h.deeper, fun hsafe => ?_⟩
  have hsafe' := hsafe.of_suffix (List.suffix_cons _ _)
  obtain ⟨hs, hresolve⟩ := h.kept hsafe'
  have huse := safeAt_of_callsSafe hentered huse (hsafe'.of_suffix h.grown)
  exact ⟨hs, hresolve.used (huse.resolves hs)⟩

theorem framed_loadVariable (huse : .read name ∈ body.uses) :
    Keeps (Framed past s) (loadVariable s.length name) :=
  keeps_bind (framed_useName hentered huse) fun _ => keeps_reads _

variable (casts) in
theorem framed_assignVariable (huse : .write name ∈ body.uses) (value : VarValue) :
    Keeps (Framed past s) (assignVariable casts s.length name value) := by
  refine keeps_bind (framed_useName hentered huse) fun _ => framed_onScopes ?_
  intro scopes scopes' hdeeper h
  obtain ⟨assigned, hassign, rfl⟩ := map_eq_ok.mp h
  obtain ⟨hlength, hkept⟩ := breadVarAssign_suffix (s := s) hassign
  exact ⟨hlength ▸ hdeeper, fun hsafe hs =>
    hkept hs (safeAt_of_callsSafe hentered huse hsafe)⟩

end Activation

theorem framed_of_tail {f : ScopeStack → Exec ScopeStack}
    (hf : ∀ scopes scopes', f scopes = .ok scopes' →
      scopes'.length = scopes.length ∧ scopes'.tail = scopes.tail) :
    Keeps (Framed past s) (onScopes f) := by
  refine framed_onScopes fun scopes scopes' hdeeper hscopes => ?_
  obtain ⟨hlength, htail⟩ := hf scopes scopes' hscopes
  exact ⟨hlength ▸ hdeeper, fun _ hs => suffix_of_tail htail hdeeper hs⟩

theorem framed_declareMirror (mirror : Option VarMirror) (value : VarValue) :
    Keeps (Framed past s) (declareMirror casts mirror value) := by
  cases mirror with
  | none => exact keeps_pure _
  | some mirror =>
      refine framed_of_tail fun scopes scopes' h => ?_
      obtain ⟨declared, hdeclared, rfl⟩ := map_eq_ok.mp h
      exact breadVarDeclIfMissing_tail hdeclared

theorem framed_declareLoopVariable (type : VarType) (n : BreadInt) :
    Keeps (Framed past s)
      (onScopes fun scopes => declareLoopVariable casts scopes name type n) := by
  refine framed_of_tail fun scopes scopes' h => ?_
  obtain ⟨declared, hdeclared, rfl⟩ := map_eq_ok.mp h
  exact breadVarDeclIfMissing_tail hdeclared

theorem framed_popToScopeDepth {target : ℕ} (htarget : s.length < target) :
    Keeps (Framed past s) (onScopes fun scopes => popToScopeDepth scopes target) := by
  refine framed_onScopes fun scopes scopes' _ h => ?_
  obtain ⟨hlength, hsuffix⟩ := popToScopeDepth_eq_ok h
  refine ⟨hlength ▸ htarget, fun _ hs => ?_⟩
  exact List.suffix_of_suffix_length_le hs hsuffix (by omega)

theorem framed_setupLoopScope (hasScope : Bool) :
    Keeps (Framed past s) (onScopes (setupLoopScope hasScope)) := by
  refine framed_onScopes fun scopes scopes' hdeeper h => ?_
  unfold setupLoopScope at h
  split at h
  · unfold pushScope at h
    split at h
    · cases h
    · cases h
      exact ⟨Nat.lt_succ_of_lt hdeeper, fun _ hs => hs.trans (List.suffix_cons _ _)⟩
  · cases h
    exact ⟨hdeeper, fun _ hs => hs⟩

theorem framed_leaveLoopScope (hasScope : Bool) {target : ℕ} (htarget : s.length < target) :
    Keeps (Framed past s) (onScopes (leaveLoopScope hasScope target)) := by
  cases hasScope with
  | true => exact framed_popToScopeDepth htarget
  | false =>
      refine framed_onScopes fun scopes scopes' hdeeper h => ?_
      cases h
      exact ⟨hdeeper, fun _ hs => hs⟩

/-! ### The executions of one level -/

/-- An activation as it runs: the depths that it has recorded. -/
structure Activation.Above (act : Activation) (s : ScopeStack) : Prop where
  base_eq : act.base = s.length
  loopBase_gt : ∀ base, act.loopBase = some base → s.length < base

/-- The activation in a block that is entered at a depth above the callers. -/
theorem Activation.Above.inBlock (h : act.Above s) (isLoop : Bool) (hbase : s.length < base) :
    Activation.Above { act with loopBase := if isLoop then some base else act.loopBase } s where
  base_eq := h.base_eq
  loopBase_gt := by
    intro b hb
    cases isLoop with
    | true =>
        cases hb
        exact hbase
    | false => exact h.loopBase_gt b hb

/-- What an execution keeps, whatever the activation is. -/
structure Runner.Framed (r : Runner) : Prop where
  eval : ∀ {past body s}, .called body s ∈ past → ∀ code : Code, code.uses ⊆ body.uses →
    Keeps (BreadLang.Framed past s) (r.eval s.length code)
  exec : ∀ {past body s}, .called body s ∈ past → ∀ act : Activation, act.Above s →
    ∀ code, stmtsUses code ⊆ body.uses → Keeps (BreadLang.Framed past s) (r.exec act code)
  call : ∀ {past s} (body args), Keeps (BreadLang.Framed past s) (r.call body args)

theorem framed_callFunctionBody (hr : r.Framed) (fn : LLVMFunction) (args : List VarValue) :
    Keeps (Framed past s) (callFunctionBody module r fn args) := by
  unfold callFunctionBody
  cases module.find? (·.fn = fn) with
  | none => exact keeps_throw _
  | some body => exact hr.call body args

theorem framed_callChosen (hr : r.Framed) (args : List VarValue) :
    Keeps (Framed past s) (callChosen module r args) := by
  refine keeps_bind framed_choose fun choice => ?_
  cases choice.callee.bind (module[·]?) with
  | none => exact keeps_pure _
  | some body => exact hr.call body args

section Step

variable (hr : r.Framed) (hentered : .called body s ∈ past)

include hr hentered

theorem framed_args {args : List Code} (h : codesUses args ⊆ body.uses) :
    Keeps (Framed past s) (args.mapM (r.eval s.length)) :=
  keeps_mapM_of_mem fun code hcode =>
    hr.eval hentered code (List.Subset.trans (uses_subset_codesUses hcode) h)

/-- One level of the execution of an expression. -/
theorem framed_evalCode (code : Code) (h : code.uses ⊆ body.uses) :
    Keeps (Framed past s) (evalCode module r s.length code) := by
  cases code with
  | op op args => exact keeps_bind (framed_args hr hentered h) fun _ => framed_computed
  | load type slot => exact framed_loadFrom slot
  | cloneSlot slot => exact framed_loadFrom slot
  | slot slot => exact framed_loadFrom slot
  | selfParam => exact framed_computed
  | cloneSelf => exact framed_computed
  | varLoad name => exact framed_loadVariable hentered (h (by simp [Code.uses]))
  | callFunction fn args =>
      exact keeps_bind (framed_args hr hentered h) fun values => framed_callFunctionBody hr fn values
  | callMethod fn self args =>
      obtain ⟨hself, hargs⟩ := List.append_subset.mp h
      refine keeps_bind (hr.eval hentered self hself) fun _ => ?_
      exact keeps_bind (framed_args hr hentered hargs) fun values =>
        framed_callFunctionBody hr fn values
  | methodCallOp target name args isOptionalChain =>
      obtain ⟨htarget, hargs⟩ := List.append_subset.mp h
      refine keeps_bind (hr.eval hentered target htarget) fun _ => ?_
      exact keeps_bind (framed_args hr hentered hargs) fun values => framed_callChosen hr values
  | superInit parentName args =>
      exact keeps_bind (framed_args hr hentered h) fun values => framed_callChosen hr values
  | newInstance className parentName fieldNames methodNames initArgs =>
      cases initArgs with
      | none => exact framed_computed
      | some args =>
          exact keeps_bind (framed_args hr hentered h) fun values => framed_callChosen hr values
  | seq first second =>
      obtain ⟨hfirst, hsecond⟩ := List.append_subset.mp h
      exact keeps_bind (hr.eval hentered first hfirst) fun _ => hr.eval hentered second hsecond

theorem framed_evalCgValue (value : CgValue) (h : value.uses ⊆ body.uses) :
    Keeps (Framed past s) (evalCgValue r s.length value) := by
  cases value with
  | boxed code =>
      cases code with
      | none => exact framed_computed
      | some code => exact hr.eval hentered code h
  | unboxed type code => exact hr.eval hentered code h

omit hr hentered in
/-- The depth that is read is one at which the scopes of the callers are there. -/
theorem framed_scopeDepth_bind {α : Type} {f : ℕ → VarM α}
    (hf : ∀ base, s.length < base → Keeps (Framed past s) (f base)) :
    Keeps (Framed past s) (scopeDepth >>= f) :=
  fun m hm => hf m.scopes.length hm.deeper m hm

/-- A block is left at the depth at which it was entered, or by a jump. -/
theorem framed_runBlock (hact : act.Above s) (isLoop hasScope : Bool) {enter : VarM Unit}
    (henter : Keeps (Framed past s) enter) {code : List CodeStmt}
    (h : stmtsUses code ⊆ body.uses) :
    Keeps (Framed past s) (runBlock r act isLoop hasScope enter code) := by
  refine framed_scopeDepth_bind fun base hbase => keeps_bind (framed_setupLoopScope hasScope)
    fun _ => keeps_bind henter fun _ =>
      keeps_bind (hr.exec hentered _ (hact.inBlock (isLoop && hasScope) hbase) code h)
        fun flow => ?_
  cases flow with
  | normal => exact keeps_bind (framed_leaveLoopScope hasScope hbase) fun _ => keeps_pure _
  | broken => exact keeps_pure _
  | continued => exact keeps_pure _
  | returned value => exact keeps_pure _

omit hr hentered in
theorem framed_afterTurn {next : VarM Flow} (h : Keeps (Framed past s) next) (flow : Flow) :
    Keeps (Framed past s) (afterTurn next flow) := by
  cases flow with
  | normal => exact h
  | continued => exact h
  | broken => exact keeps_pure _
  | returned value => exact keeps_pure _

theorem framed_whileTurns (hact : act.Above s) {condition : Code} (hasScope : Bool)
    {code : List CodeStmt} (hcondition : condition.uses ⊆ body.uses)
    (h : stmtsUses code ⊆ body.uses) (n : ℕ) :
    Keeps (Framed past s) (whileTurns r act condition hasScope code n) := by
  induction n with
  | zero => exact keeps_throw _
  | succ n ih =>
      unfold whileTurns
      rw [hact.base_eq]
      refine keeps_bind (hr.eval hentered condition hcondition) fun _ =>
        keeps_bind framed_choose fun choice => ?_
      split
      · exact keeps_bind (framed_runBlock hr hentered hact true hasScope (keeps_pure _) h)
          (framed_afterTurn ih)
      · exact keeps_pure _

theorem framed_rangeTurns (hact : act.Above s) (hname : .write name ∈ body.uses)
    (stop step : ℤ) (hasScope : Bool) {code : List CodeStmt} (h : stmtsUses code ⊆ body.uses)
    (n : ℕ) (i : ℤ) :
    Keeps (Framed past s) (rangeTurns casts r act name stop step hasScope code n i) := by
  induction n generalizing i with
  | zero => exact keeps_throw _
  | succ n ih =>
      unfold rangeTurns
      rw [hact.base_eq]
      by_cases hturn : if 0 < step then i < stop else stop < i
      · rw [if_pos hturn]
        exact keeps_bind (framed_runBlock hr hentered hact true hasScope
          (framed_assignVariable casts hentered hname _) h) (framed_afterTurn (ih _))
      · rw [if_neg hturn]
        exact keeps_pure _

theorem framed_elementTurns (hact : act.Above s) (hname : .write name ∈ body.uses)
    (hasScope : Bool) {code : List CodeStmt} (h : stmtsUses code ⊆ body.uses) (n : ℕ) :
    Keeps (Framed past s) (elementTurns casts r act name hasScope code n) := by
  induction n with
  | zero => exact keeps_pure _
  | succ n ih =>
      unfold elementTurns
      rw [hact.base_eq]
      refine keeps_bind framed_choose fun choice => ?_
      exact keeps_bind (framed_runBlock hr hentered hact true hasScope
        (framed_assignVariable casts hentered hname _) h) (framed_afterTurn ih)

omit hr hentered in
theorem framed_leaveLoop (hact : act.Above s) (popsScope : Bool) :
    Keeps (Framed past s) (leaveLoop act popsScope) := by
  cases popsScope with
  | false => exact keeps_pure _
  | true =>
      unfold leaveLoop
      cases hloop : act.loopBase with
      | none => exact keeps_throw _
      | some base => exact framed_popToScopeDepth (hact.loopBase_gt base hloop)

/-- One level of the execution of a statement. -/
theorem framed_execStmt (hact : act.Above s) (stmt : CodeStmt) (h : stmt.uses ⊆ body.uses) :
    Keeps (Framed past s) (execStmt casts r act stmt) := by
  have heval (code : Code) (hcode : code.uses ⊆ body.uses) :
      Keeps (Framed past s) (r.eval act.base code) := hact.base_eq ▸ hr.eval hentered code hcode
  have henter : Keeps (Framed past s) (pure () : VarM Unit) := keeps_pure ()
  cases stmt with
  | eval value => exact keeps_bind (heval value h) fun _ => keeps_pure _
  | print value => exact keeps_bind (heval value h) fun _ => keeps_pure _
  | storeSlot slot value mirror =>
      exact keeps_bind (heval value h) fun v => keeps_bind (framed_storeInto slot v) fun _ =>
        keeps_bind (framed_declareMirror mirror v) fun _ => keeps_pure _
  | storeUnboxed slot type value mirror =>
      have hvalue := framed_evalCgValue hr hentered value h
      rw [← hact.base_eq] at hvalue
      exact keeps_bind hvalue fun v => keeps_bind (framed_storeInto slot v) fun _ =>
        keeps_bind (framed_declareMirror mirror v) fun _ => keeps_pure _
  | varDecl name type isConst value =>
      refine keeps_bind (heval value h) fun v => keeps_bind (framed_of_tail ?_) fun _ => keeps_pure _
      intro scopes scopes' hscopes
      obtain ⟨declared, hdeclared, rfl⟩ := map_eq_ok.mp hscopes
      exact breadVarDecl_tail hdeclared
  | varAssign name value =>
      obtain ⟨hname, hvalue⟩ := List.cons_subset.mp h
      have hassign (v : VarValue) := framed_assignVariable casts hentered hname v
      rw [← hact.base_eq] at hassign
      exact keeps_bind (heval value hvalue) fun v => keeps_bind (hassign v) fun _ => keeps_pure _
  | indexSet index target value =>
      obtain ⟨hfirst, hvalue⟩ := List.append_subset.mp h
      obtain ⟨hindex, htarget⟩ := List.append_subset.mp hfirst
      exact keeps_bind (heval index hindex) fun _ => keeps_bind (heval target htarget) fun _ =>
        keeps_bind (heval value hvalue) fun _ => keeps_pure _
  | indexUpdate index target op value =>
      obtain ⟨hfirst, hvalue⟩ := List.append_subset.mp h
      obtain ⟨hindex, htarget⟩ := List.append_subset.mp hfirst
      exact keeps_bind (heval index hindex) fun _ => keeps_bind (heval target htarget) fun _ =>
        keeps_bind (heval value hvalue) fun _ => keeps_pure _
  | memberSet target member value =>
      obtain ⟨htarget, hvalue⟩ := List.append_subset.mp h
      exact keeps_bind (heval target htarget) fun _ => keeps_bind (heval value hvalue) fun _ =>
        keeps_pure _
  | memberUpdate target member op value =>
      obtain ⟨htarget, hvalue⟩ := List.append_subset.mp h
      exact keeps_bind (heval target htarget) fun _ => keeps_bind (heval value hvalue) fun _ =>
        keeps_pure _
  | ifThenElse condition hasScope thenCode elseCode =>
      cases elseCode with
      | none =>
          obtain ⟨hcondition, hthen⟩ := List.append_subset.mp h
          refine keeps_bind (heval condition hcondition) fun _ =>
            keeps_bind framed_choose fun choice => ?_
          split
          · exact framed_runBlock hr hentered hact false hasScope henter hthen
          · exact keeps_pure _
      | some elseCode =>
          obtain ⟨hfirst, helse⟩ := List.append_subset.mp h
          obtain ⟨hcondition, hthen⟩ := List.append_subset.mp hfirst
          refine keeps_bind (heval condition hcondition) fun _ =>
            keeps_bind framed_choose fun choice => ?_
          split
          · exact framed_runBlock hr hentered hact false hasScope henter hthen
          · exact framed_runBlock hr hentered hact false hasScope henter helse
  | whileLoop condition hasScope code =>
      obtain ⟨hcondition, hcode⟩ := List.append_subset.mp h
      exact framed_whileTurns hr hentered hact hasScope hcondition hcode r.fuel
  | forRange name start stop step hasScope code =>
      obtain ⟨hname, hcode⟩ := List.cons_subset.mp h
      exact keeps_bind (framed_declareLoopVariable _ _) fun _ =>
        framed_rangeTurns hr hentered hact hname stop step hasScope hcode r.fuel start
  | forIn name iterable isDict hasScope code =>
      obtain ⟨hname, hrest⟩ := List.cons_subset.mp h
      obtain ⟨hiterable, hcode⟩ := List.append_subset.mp hrest
      refine keeps_bind (heval iterable hiterable) fun _ =>
        keeps_bind framed_choose fun choice => ?_
      split
      · exact keeps_pure _
      · exact keeps_bind (framed_declareLoopVariable _ _) fun _ =>
          framed_elementTurns hr hentered hact hname hasScope hcode choice.count
  | breakLoop popsScope =>
      exact keeps_bind (framed_leaveLoop hact popsScope) fun _ => keeps_pure _
  | continueLoop popsScope =>
      exact keeps_bind (framed_leaveLoop hact popsScope) fun _ => keeps_pure _
  | ret value => exact keeps_bind (heval value h) fun _ => keeps_pure _
  | truncated => exact keeps_pure _

theorem framed_execStmts (hact : act.Above s) (code : List CodeStmt)
    (h : stmtsUses code ⊆ body.uses) :
    Keeps (Framed past s) (execStmts casts r act code) := by
  induction code with
  | nil => exact keeps_pure _
  | cons stmt code ih =>
      obtain ⟨hstmt, hcode⟩ := List.append_subset.mp h
      refine keeps_bind (framed_execStmt hr hentered hact stmt hstmt) fun flow => ?_
      cases flow with
      | normal => exact ih hcode
      | broken => exact keeps_pure _
      | continued => exact keeps_pure _
      | returned value => exact keeps_pure _

end Step

/-! ### Calls -/

theorem framed_setupParameters (body : CodeBody) (args : List VarValue) :
    Keeps (Framed past s) (setupParameters casts body args) :=
  keeps_forM (fun _ => keeps_bind (framed_storeInto _ _) fun _ => framed_declareMirror _ _) _

/-- The run of an activation, from the push of its scope on. -/
theorem framed_runActivation (hr : r.Framed) (hentered : .called body s ∈ past)
    (args : List VarValue) :
    Keeps (Framed past s) (runActivation casts r s.length body args) := by
  refine keeps_bind (keeps_modify fun _ h => h.congr rfl rfl) fun _ => ?_
  refine keeps_bind (framed_setupParameters body args) fun _ => ?_
  exact hr.exec hentered _ ⟨rfl, fun _ h => (by cases h)⟩ body.code (List.Subset.refl _)

/-- What a call keeps of the state in which it is made. -/
structure CallKeeps (m m' : VarMachine) : Prop where
  grown : m.trace <:+ m'.trace
  deep : m.scopes.length ≤ m'.scopes.length
  kept : CallsSafe m'.trace → m.scopes <:+ m'.scopes ∧ NamesResolve m'.trace

theorem Framed.callKeeps {m' : VarMachine}
    (h : Framed (.called body m.scopes :: m.trace) m.scopes m') : CallKeeps m m' where
  grown := (List.suffix_cons _ _).trans h.grown
  deep := h.deeper.le
  kept := h.kept

theorem le_popDepth (body : CodeBody) (base : ℕ) (flow : Flow) :
    base ≤ body.popDepth base flow := by
  cases flow <;> simp only [CodeBody.popDepth] <;> (try split) <;> omega

theorem popDepth_of_pos (body : CodeBody) {base : ℕ} (hbase : 0 < base) (flow : Flow) :
    body.popDepth base flow = base := by
  cases flow <;> simp only [CodeBody.popDepth] <;> (try split) <;> omega


/-- What follows a computation that keeps an invariant, which implies what is to be
shown in case it fails. -/
theorem final_bind_of_keeps {α β : Type} {I J : VarMachine → Prop} {c : VarM α}
    {f : α → VarM β} (hc : Keeps I c) (hJ : ∀ m, I m → J m)
    (hf : ∀ a m, I m → J ((f a).final m)) (hm : I m) : J ((c >>= f).final m) := by
  rw [final_bind]
  cases c.result m with
  | error stop => exact hJ _ (hc m hm)
  | ok a => exact hf a _ (hc m hm)

/-- The epilogue leaves the depth at which the call was made, or a greater one. -/
theorem callKeeps_epilogue {m' : VarMachine} {target : ℕ} {slots : StackSlot → VarValue}
    {value : VarValue} (htarget : m.scopes.length ≤ target)
    (h : Framed (.called body m.scopes :: m.trace) m.scopes m') :
    CallKeeps m (final (do
      onScopes fun scopes => popToScopeDepth scopes target
      modify fun m => { m with slots := slots }
      return value : VarM VarValue) m') := by
  rw [final_bind]
  cases hpop : popToScopeDepth m'.scopes target with
  | error stop =>
      rw [result_onScopes_of_error hpop, final_onScopes_of_error hpop]
      exact h.callKeeps
  | ok scopes' =>
      obtain ⟨hlength, hsuffix⟩ := popToScopeDepth_eq_ok hpop
      rw [result_onScopes_of_ok hpop, final_onScopes_of_ok hpop]
      refine ⟨h.callKeeps.grown, hlength ▸ htarget, fun hsafe => ?_⟩
      obtain ⟨hs, hresolve⟩ := h.kept hsafe
      exact ⟨List.suffix_of_suffix_length_le hs hsuffix (hlength ▸ htarget), hresolve⟩

variable (casts m) in
/-- **A call** of compiled code: the scopes of the caller stay under those of the
callee, and are left alone when all calls are safe. -/
theorem callBody_keeps (hr : r.Framed) (body : CodeBody) (args : List VarValue)
    (hpast : CallsSafe m.trace → NamesResolve m.trace) :
    CallKeeps m ((callBody casts r body args).final m) := by
  unfold callBody
  rw [final_get_bind, final_bind]
  generalize hm₁ : final (note (.called body m.scopes)) m = m₁
  have htrace : m₁.trace = .called body m.scopes :: m.trace := by rw [← hm₁]; rfl
  have hscopes : m₁.scopes = m.scopes := by rw [← hm₁]; rfl
  have hresolve : CallsSafe m₁.trace → NamesResolve m₁.trace := by
    rw [htrace]
    exact fun hsafe => (hpast (hsafe.of_suffix (List.suffix_cons _ _))).called
  show CallKeeps m (final (onScopes pushScope >>= _) m₁)
  rw [final_bind]
  cases hpush : pushScope m₁.scopes with
  | error stop =>
      rw [result_onScopes_of_error hpush, final_onScopes_of_error hpush]
      refine ⟨htrace ▸ List.suffix_cons _ _, hscopes ▸ le_rfl, fun hsafe => ⟨?_, hresolve hsafe⟩⟩
      rw [hscopes]
  | ok pushed =>
      have hpushed : pushed = [] :: m.scopes := by
        rw [hscopes, pushScope] at hpush
        split at hpush
        · cases hpush
        · cases hpush
          rfl
      rw [result_onScopes_of_ok hpush, final_onScopes_of_ok hpush, hpushed]
      have hframed : Framed (.called body m.scopes :: m.trace) m.scopes
          { m₁ with scopes := [] :: m.scopes } :=
        ⟨htrace ▸ List.suffix_rfl, Nat.lt_succ_self _, fun hsafe =>
          ⟨List.suffix_cons _ _, hresolve hsafe⟩⟩
      exact final_bind_of_keeps (framed_runActivation hr List.mem_cons_self args)
        (fun _ h => h.callKeeps) (fun flow _ h => callKeeps_epilogue (le_popDepth body _ flow) h)
        hframed

/-- A call that returns has popped its scope, and the slots are the caller's. -/
theorem callBody_returns {args : List VarValue} {value : VarValue} (hm : m.scopes ≠ [])
    (h : (callBody casts r body args).result m = .ok value) :
    ((callBody casts r body args).final m).scopes.length = m.scopes.length ∧
      ((callBody casts r body args).final m).slots = m.slots := by
  unfold callBody at h ⊢
  rw [result_get_bind] at h
  rw [final_get_bind]
  obtain ⟨⟨⟩, hnote, h⟩ := result_bind_eq_ok.mp h
  obtain ⟨⟨⟩, hpush, h⟩ := result_bind_eq_ok.mp h
  obtain ⟨flow, hrun, h⟩ := result_bind_eq_ok.mp h
  rw [final_bind_of_ok hnote, final_bind_of_ok hpush, final_bind_of_ok hrun]
  generalize final (runActivation _ _ _ _ _) _ = m' at h ⊢
  have hpos : 0 < m.scopes.length := List.length_pos_of_ne_nil hm
  rw [popDepth_of_pos body hpos] at h ⊢
  obtain ⟨⟨⟩, hpop, h⟩ := result_bind_eq_ok.mp h
  rw [final_bind_of_ok hpop]
  cases hscopes : popToScopeDepth m'.scopes m.scopes.length with
  | error stop =>
      rw [result_onScopes_of_error hscopes] at hpop
      cases hpop
  | ok scopes' =>
      rw [final_onScopes_of_ok hscopes]
      exact ⟨(popToScopeDepth_eq_ok hscopes).1, rfl⟩

/-! ### Runs -/

/-- Every level of the execution keeps the run of the activation. -/
theorem runner_framed (casts : NumericCasts) (module : List CodeBody) (n : ℕ) :
    (runner casts module n).Framed := by
  induction n with
  | zero =>
      exact ⟨fun _ _ _ => keeps_throw _, fun _ _ _ _ _ => keeps_throw _, fun _ _ => keeps_throw _⟩
  | succ n ih =>
      refine ⟨fun hentered code h => framed_evalCode ih hentered code h,
        fun hentered act hact code h => framed_execStmts ih hentered hact code h,
        fun body args m h => ?_⟩
      have hcall := callBody_keeps casts m ih body args fun hsafe =>
        (h.kept hsafe).2
      refine ⟨h.grown.trans hcall.grown, h.deeper.trans_le hcall.deep, fun hsafe => ?_⟩
      obtain ⟨hs, hresolve⟩ := hcall.kept hsafe
      exact ⟨(h.kept (hsafe.of_suffix hcall.grown)).1.trans hs, hresolve⟩

/-- **A call leaves its caller alone**: when it returns, the scopes and the slots are
what they were, and whether or not it returns, every name that has been used has been
resolved to a variable of the activation that used it or to a global. -/
structure CallLeavesCaller (casts : NumericCasts) (module : List CodeBody) (n : ℕ)
    (body : CodeBody) (args : List VarValue) (m : VarMachine) : Prop where
  restored : ∀ value, ((runner casts module n).call body args).result m = .ok value →
    (((runner casts module n).call body args).final m).scopes = m.scopes ∧
      (((runner casts module n).call body args).final m).slots = m.slots
  resolved : NamesResolve (((runner casts module n).call body args).final m).trace

/-- **When a call leaves its caller alone**: in every run of a call, from any stack
with a global scope, all of whose calls are safe. -/
theorem call_leaves_caller (casts : NumericCasts) (module : List CodeBody) (n : ℕ)
    (body : CodeBody) (args : List VarValue) (scopes : ScopeStack) (slots : StackSlot → VarValue)
    (oracle : ℕ → Choice) (hglobal : scopes ≠ [])
    (hsafe : CallsSafe (((runner casts module n).call body args).final
      (.start scopes slots oracle)).trace) :
    CallLeavesCaller casts module n body args (.start scopes slots oracle) := by
  cases n with
  | zero =>
      exact ⟨fun value h => (by cases h), fun event h => absurd h List.not_mem_nil⟩
  | succ n =>
      have hcall := callBody_keeps casts (.start scopes slots oracle)
        (runner_framed casts module n) body args fun _ event h => absurd h List.not_mem_nil
      obtain ⟨hs, hresolve⟩ := hcall.kept hsafe
      refine ⟨fun value h => ?_, hresolve⟩
      obtain ⟨hlength, hslots⟩ := callBody_returns hglobal h
      exact ⟨(hs.eq_of_length hlength.symm).symm, hslots⟩

/-- A function that loops over a range and reads a global, and calls itself. -/
def loopingBody : CodeBody where
  fn := ⟨"f".toList, 0, 1⟩
  params := []
  mirrorsParams := true
  code := [.forRange "k".toList 0 1 1 false
    [.eval (.varLoad "x".toList), .ifThenElse (.op (.constBool true) []) false
      [.eval (.callFunction ⟨"f".toList, 0, 1⟩ [])] none]]

/-- A call of it from a loop over another variable. -/
theorem loopingBody_leaves_caller :
    CallLeavesCaller zeroCasts [loopingBody] 9 loopingBody []
      (.start [[⟨"i".toList, .int 0, false⟩], [⟨"x".toList, .int 5, false⟩]] (fun _ => .nil)
        fun _ => ⟨.nil, false, 0, none⟩) :=
  call_leaves_caller zeroCasts [loopingBody] 9 loopingBody [] _ _ _ (by decide) (by decide +kernel)

/-! ### A call that changes a variable of its caller -/

/-- A module has the code of the function whose entry is in front. -/
theorem mem_module_of_first {n : ℕ} {program : ASTStmtList} {cg : Cg} {main : List CodeStmt}
    {f other : CgFunction} (hmain : (buildStmts (builder n) none program).result cg = .ok main)
    (hfunctions : ((buildStmts (builder n) none program).final cg).functions = [f, other])
    (hf : ∀ cg, (generateFunctionBody (builder n) f).result cg = .ok ⟨⟩ ∧
      ((generateFunctionBody (builder n) f).final cg).module = body :: cg.module)
    (hother : other.body = none) : body ∈ ((buildModule n program).final cg).module := by
  have hpure : generateFunctionBody (builder n) other = pure () := by
    unfold generateFunctionBody
    rw [hother]
  have hclasses (classes : List CgClass) :
      Keeps (fun cg => body ∈ cg.module) (generateClassMethods classes) := by
    refine keeps_forM (fun c => keeps_forM (fun m => ?_) _) _
    split
    · exact keeps_pure _
    · cases m.2 with
      | none => exact keeps_bind (keeps_throw _) fun _ => keeps_pure _
      | some fn => exact keeps_bind (keeps_pure fn) fun _ => keeps_pure _
  unfold buildModule generateFunctionBodies
  rw [final_bind_of_ok hmain, final_get_bind, hfunctions, List.forM, List.forM, hpure, final_bind]
  generalize (buildStmts (builder n) none program).final cg = cg₁
  have hresult : ((generateFunctionBody (builder n) f >>= fun _ =>
      (pure () >>= fun _ => List.forM [] (generateFunctionBody (builder n)))).result cg₁) =
      .ok ⟨⟩ := by
    rw [result_bind, (hf cg₁).1]
    rfl
  rw [hresult]
  refine keeps_bind (hclasses _) (fun _ => keeps_pure _) _ ?_
  rw [final_bind, (hf cg₁).1]
  show body ∈ ((generateFunctionBody (builder n) f).final cg₁).module
  rw [(hf cg₁).2]
  exact List.mem_cons_self

/-- The declaration of a function that has a loop. -/
def loopingFunction : FuncDecl where
  name := "f".toList
  params := []
  returnType := .typeNil
  returnTypeDesc := some .nil
  body := some [.forStmt "i".toList (.call "range".toList [.int 2]) (some [])]

/-- A program that calls it when it has a variable with the name of its loop
variable. -/
def calledBesideVariable : ASTStmtList :=
  [.funcDecl loopingFunction, .varDecl "i".toList .typeInt (some .int) (.int 10) false,
    .expr (.call "f".toList [])]

/-- The code of the function. -/
def loopingFunctionCode : CodeBody where
  fn := ⟨"f".toList, 0, 1⟩
  params := []
  mirrorsParams := true
  code := [.forRange "i".toList 0 2 1 false []]

theorem calledBesideVariable_compiles :
    ∃ program' cg, semanticAnalyze .init calledBesideVariable = .ok (program', cg) ∧
      loopingFunctionCode ∈ ((buildModule 4 program').final cg).module := by
  let main : List CodeStmt :=
    [.varDecl "i".toList .typeInt false (.op (.box .int) [.op (.constInt 10) []]),
      .eval (.callFunction ⟨"f".toList, 0, 1⟩ [])]
  let entry := functionEntry loopingFunction ⟨"f".toList, 0, 1⟩
  exact ⟨_, _, rfl, @mem_module_of_first _ 4 _ _ main entry _ rfl rfl (fun _ => ⟨rfl, rfl⟩) rfl⟩

/-- The call returns 1 in the variable, whose value was 10. -/
theorem loopingFunctionCode_runs (casts : NumericCasts) (slots : StackSlot → VarValue)
    (oracle : ℕ → Choice) :
    ((runner casts [loopingFunctionCode] 8).call loopingFunctionCode []).result
        (.start [[⟨"i".toList, .int 10, false⟩]] slots oracle) = .ok .nil ∧
      (((runner casts [loopingFunctionCode] 8).call loopingFunctionCode []).final
        (.start [[⟨"i".toList, .int 10, false⟩]] slots oracle)).scopes =
          [[⟨"i".toList, .int 1, false⟩]] :=
  ⟨rfl, rfl⟩

/-- The program is accepted, and its call changes the variable. -/
theorem calledBesideVariable_changes :
    ∃ program' cg, semanticAnalyze .init calledBesideVariable = .ok (program', cg) ∧
      loopingFunctionCode ∈ ((buildModule 4 program').final cg).module ∧
      ∀ casts slots oracle,
        ¬ CallLeavesCaller casts [loopingFunctionCode] 8 loopingFunctionCode []
          (.start [[⟨"i".toList, .int 10, false⟩]] slots oracle) := by
  obtain ⟨program', cg, haccepted, hmodule⟩ := calledBesideVariable_compiles
  refine ⟨program', cg, haccepted, hmodule, fun casts slots oracle h => ?_⟩
  obtain ⟨hresult, hfinal⟩ := loopingFunctionCode_runs casts slots oracle
  have hscopes := (h.restored .nil hresult).1
  rw [hfinal] at hscopes
  revert hscopes
  show ¬ ([[⟨"i".toList, .int 1, false⟩]] : ScopeStack) = [[⟨"i".toList, .int 10, false⟩]]
  decide

end BreadLang
