import BreadLang.Codegen.Expr
import BreadLang.Codegen.SemanticFacts

/-!
# Default values of parameters

A call may leave out arguments.  How many it needs is counted up to the first parameter with a
default, in three places of the compiler and once more for functions that are registered at run
time; the values that are passed are looked up for each parameter by itself.  The two agree when
no parameter without a default comes after one with a default.
-/

namespace BreadLang

/-! ### Counting up to the first default -/

section Counting

variable {α : Type} {hasDefault : α → Bool}

/-- Once a parameter has a default, so have all after it. -/
def DefaultsLast (hasDefault : α → Bool) (params : List α) : Prop :=
  params.Pairwise fun p q => hasDefault p = true → hasDefault q = true

/-- The number of parameters before the first default. -/
def requiredCount (hasDefault : α → Bool) (params : List α) : ℕ :=
  (params.takeWhile fun p => !hasDefault p).length

theorem drop_requiredCount (params : List α) :
    params.drop (requiredCount hasDefault params) = params.dropWhile fun p => !hasDefault p := by
  have hsplit := List.takeWhile_append_dropWhile (p := fun p => !hasDefault p) (l := params)
  have hdrop : ((params.takeWhile fun p => !hasDefault p) ++
      params.dropWhile fun p => !hasDefault p).drop (requiredCount hasDefault params) =
        params.dropWhile fun p => !hasDefault p := List.drop_left
  rwa [hsplit] at hdrop

/-- **No gap is left** at any accepted number of arguments if and only if the defaults come
last. -/
theorem no_gap_iff (params : List α) :
    (∀ n, requiredCount hasDefault params ≤ n → n ≤ params.length →
      ∀ p ∈ params.drop n, hasDefault p = true) ↔ DefaultsLast hasDefault params := by
  have hsplit := List.takeWhile_append_dropWhile (p := fun p => !hasDefault p) (l := params)
  constructor
  · intro h
    -- the shortest call that is accepted supplies the parameters before the first default
    have hrest := h _ le_rfl (List.takeWhile_prefix _).length_le
    rw [drop_requiredCount] at hrest
    rw [DefaultsLast, ← hsplit, List.pairwise_append]
    refine ⟨?_, ?_, fun p hp q hq _ => hrest q hq⟩
    · refine List.pairwise_iff_getElem.mpr fun i j hi hj _ hdefault => ?_
      have := List.mem_takeWhile_imp (List.getElem_mem hi)
      rw [hdefault] at this
      cases this
    · exact List.pairwise_iff_getElem.mpr fun i j hi hj _ _ => hrest _ (List.getElem_mem hj)
  · intro h n hn _ p hp
    have hp : p ∈ params.dropWhile fun p => !hasDefault p := by
      rw [← drop_requiredCount]
      exact List.drop_subset_drop_left params hn hp
    rw [DefaultsLast, ← hsplit, List.pairwise_append] at h
    obtain ⟨-, hrest, -⟩ := h
    cases hlist : params.dropWhile fun p => !hasDefault p with
    | nil =>
        rw [hlist] at hp
        cases hp
    | cons first rest =>
        have hfirst : hasDefault first = true := by
          have := List.dropWhile_get_zero_not (fun p => !hasDefault p) params
            (by rw [hlist]; exact Nat.succ_pos _)
          simpa [hlist] using this
        rw [hlist] at hp hrest
        rcases List.mem_cons.mp hp with rfl | hmem
        · exact hfirst
        · exact List.rel_of_pairwise_cons hrest hmem hfirst

end Counting

/-! ### Calls of functions and constructors -/

/-- Whether a parameter has a default. -/
def ASTParam.hasDefault (p : ASTParam) : Bool := !p.default.isNull

/-- **A call binds every parameter**: the parameters without an argument have a default, and what
is passed are the arguments and then these defaults. -/
def BindsAll (args : List ASTExpr) (params : List ASTParam) : Prop :=
  (∀ p ∈ params.drop args.length, p.hasDefault = true) ∧
    callArgs args params = args ++ (params.drop args.length).map ASTParam.default

theorem callArgs_nil (params : List ASTParam) :
    callArgs [] params = params.map ASTParam.default := by
  induction params with
  | nil => rfl
  | cons p params ih => rw [callArgs, ih, List.map_cons]

theorem callArgs_eq {args : List ASTExpr} {params : List ASTParam}
    (h : args.length ≤ params.length) :
    callArgs args params = args ++ (params.drop args.length).map ASTParam.default := by
  induction args generalizing params with
  | nil => exact callArgs_nil params
  | cons arg args ih =>
      cases params with
      | nil => cases h
      | cons p params =>
          rw [callArgs, ih (Nat.le_of_succ_le_succ h)]
          rfl

namespace Cg

/-- The states of the semantic analysis: the tables are filled by its declarations only. -/
inductive Analysed : Cg → Prop where
  | init : Analysed .init
  | enterScope {cg : Cg} (h : Analysed cg) : Analysed cg.enterScope
  | leaveScope {cg : Cg} (h : Analysed cg) : Analysed cg.leaveScope
  | declareVar {cg cg' : Cg} {name : Ident} {typeDesc : Option TypeDescriptor} {isConst : Bool}
      (h : Analysed cg) (hrun : cg.declareVar name typeDesc isConst = .ok cg') : Analysed cg'
  | declareFunction {cg cg' : Cg} {decl : FuncDecl} (h : Analysed cg)
      (hrun : cg.declareFunctionFromAst decl = .ok cg') : Analysed cg'
  | declareStruct {cg cg' : Cg} {name : Ident} {fields : List (Ident × TypeDescriptor)}
      (h : Analysed cg) (hrun : cg.declareStructFromAst name fields = .ok cg') : Analysed cg'
  | declareClass {cg cg' : Cg} {name : Ident} {parentName : Option Ident}
      {fields : List (Ident × TypeDescriptor)} {methods : List FuncDecl}
      {constructor : Option FuncDecl} (h : Analysed cg)
      (hrun : cg.declareClassFromAst name parentName fields methods constructor = .ok cg') :
      Analysed cg'

theorem stable_analysed : Analyze.Stable Analysed where
  enterScope := fun _ h => h.enterScope
  leaveScope := fun _ h => h.leaveScope
  declareVar := fun _ _ _ _ _ hrun h => h.declareVar hrun
  declareStruct := fun _ _ _ _ hrun h => h.declareStruct hrun
  declareClass := fun _ _ _ _ _ _ _ hrun h => h.declareClass hrun

/-- The first pass stays within the states of the analysis; the second one does by
`Analyze.analyzeProgram_keeps`. -/
theorem declareFunctions_analysed (program : ASTStmtList) :
    Analyze.Keeps Analysed (Analyze.declareFunctions program) := by
  induction program with
  | nil => exact Analyze.keeps_pure _
  | cons s program ih =>
      cases s with
      | funcDecl decl =>
          exact Analyze.keeps_bind
            (Analyze.keeps_updates fun _ _ hrun h => h.declareFunction hrun) fun _ => ih
      | _ => exact ih

/-- An entry of the table of functions counts the parameters before the first default. -/
theorem Analysed.required {cg : Cg} (h : cg.Analysed) :
    ∀ f ∈ cg.functions, f.requiredParamCount = requiredCount ASTParam.hasDefault f.params := by
  have hsame : ∀ {cg cg' : Cg}, cg'.functions = cg.functions →
      (∀ f ∈ cg.functions, f.requiredParamCount = requiredCount ASTParam.hasDefault f.params) →
      ∀ f ∈ cg'.functions, f.requiredParamCount = requiredCount ASTParam.hasDefault f.params :=
    fun heq h => heq ▸ h
  induction h with
  | init => intro f hf; cases hf
  | enterScope _ ih => exact hsame rfl ih
  | leaveScope _ ih => exact hsame rfl ih
  | declareVar _ hrun ih =>
      exact hsame ((Analyze.stable_functions _ _).declareVar _ _ _ _ _ hrun ⟨rfl, rfl⟩).1 ih
  | declareStruct _ hrun ih =>
      exact hsame ((Analyze.stable_functions _ _).declareStruct _ _ _ _ hrun ⟨rfl, rfl⟩).1 ih
  | declareClass _ hrun ih =>
      exact hsame ((Analyze.stable_functions _ _).declareClass _ _ _ _ _ _ _ hrun ⟨rfl, rfl⟩).1 ih
  | declareFunction _ hrun ih =>
      unfold declareFunctionFromAst at hrun
      split at hrun <;> cases hrun
      intro f hf
      rcases List.mem_cons.mp hf with rfl | hf
      · simp [ASTFuncDecl.requiredParamCount, requiredCount, ASTParam.hasDefault]
      · exact ih f hf

/-- The parameters of the function, or else of the constructor of the class, that a call is
lowered to.  `range` and the functions that are built in are called in another way. -/
def calledParams (cg : Cg) (name : Ident) : Option (List ASTParam) :=
  if name == "range".toList then none
  else
    match builtinLookup name with
    | some _ => none
    | none =>
        match cg.findFunction name with
        | some callee => some callee.params
        | none => ((cg.findClass name).bind CgClass.constructor).map ASTFuncDecl.params

/-- What `cg_analyze_expr` accepts. -/
theorem checkCall_iff {cg : Cg} (h : cg.Analysed) {name : Ident} {params : List ASTParam}
    (hcalled : cg.calledParams name = some params) (n : ℕ) :
    cg.checkCall name n = .ok () ↔
      requiredCount ASTParam.hasDefault params ≤ n ∧ n ≤ params.length := by
  have hdecl : ∀ decl : FuncDecl,
      decl.requiredParamCount = requiredCount ASTParam.hasDefault decl.params := by
    intro decl
    simp [ASTFuncDecl.requiredParamCount, requiredCount, ASTParam.hasDefault]
  unfold calledParams at hcalled
  unfold checkCall
  by_cases hrange : (name == "range".toList) = true
  · rw [if_pos hrange] at hcalled
    cases hcalled
  rw [if_neg hrange] at hcalled ⊢
  cases hbuiltin : builtinLookup name with
  | some builtin =>
      rw [hbuiltin] at hcalled
      cases hcalled
  | none =>
      simp only [hbuiltin] at hcalled ⊢
      cases hfunction : cg.findFunction name with
      | some callee =>
          simp only [hfunction, Option.some.injEq] at hcalled ⊢
          have hcount := h.required callee (List.mem_of_find?_eq_some hfunction)
          rw [hcount, hcalled]
          simp [cgError]
      | none =>
          simp only [hfunction] at hcalled ⊢
          cases hclass : cg.findClass name with
          | none => simp [hclass] at hcalled
          | some c =>
              cases hinit : c.constructor with
              | none => simp [hclass, hinit] at hcalled
              | some init =>
                  simp only [hclass, hinit, Option.bind_some, Option.map_some,
                    Option.some.injEq] at hcalled
                  simp only [hinit]
                  rw [hdecl, hcalled]
                  simp [cgError]

/-- Every accepted call of that name binds all parameters. -/
def CallsBind (cg : Cg) (name : Ident) : Prop :=
  ∀ params, cg.calledParams name = some params →
    ∀ args : List ASTExpr, cg.checkCall name args.length = .ok () → BindsAll args params

/-- The parameters of what is called by that name have their defaults last. -/
def DeclaresDefaultsLast (cg : Cg) (name : Ident) : Prop :=
  ∀ params, cg.calledParams name = some params → DefaultsLast ASTParam.hasDefault params

theorem callsBind_iff {cg : Cg} (h : cg.Analysed) (name : Ident) :
    cg.CallsBind name ↔ cg.DeclaresDefaultsLast name := by
  refine forall₂_congr fun params hcalled => ?_
  rw [← no_gap_iff]
  constructor
  · intro hbind n hrequired hlength
    have hargs : (List.replicate n ASTExpr.nil).length = n := List.length_replicate
    have hok := (checkCall_iff h hcalled n).mpr ⟨hrequired, hlength⟩
    have := (hbind (List.replicate n .nil) (hargs.symm ▸ hok)).1
    rwa [hargs] at this
  · intro hgap args hok
    obtain ⟨hrequired, hlength⟩ := (checkCall_iff h hcalled args.length).mp hok
    exact ⟨hgap _ hrequired hlength, callArgs_eq hlength⟩

end Cg

/-! ### Functions that are registered at run time -/

/-- `ExprResult`. -/
structure ExprResult where
  value : BreadValue
  isError : Bool

/-- `bread_expr_result_from_value`. -/
def ExprResult.fromValue (v : BreadValue) : ExprResult := ⟨v, false⟩

/-- `FunctionParameter`: the value stands for `default_value` and `has_default`. -/
structure FunctionParameter where
  name : Ident
  defaultValue : Option BreadValue

/-- Whether a parameter has a default. -/
def FunctionParameter.hasDefault (p : FunctionParameter) : Bool := p.defaultValue.isSome

/-- `Function`, as far as the arguments of a call go.  `register_function` makes an entry for each
parameter, without a default where it is given no entries. -/
structure RegisteredFunction where
  name : Option Ident
  parameters : List FunctionParameter

namespace RegisteredFunction

/-- `function_get_required_params`. -/
def getRequiredParams (fn : RegisteredFunction) : ℕ :=
  requiredCount FunctionParameter.hasDefault fn.parameters

/-- The loop of `function_apply_defaults` over the parameters without an argument. -/
def fillDefaults : List FunctionParameter → Option (List ExprResult)
  | [] => some []
  | p :: params => do
      let v ← p.defaultValue
      return .fromValue v :: (← fillDefaults params)

/-- `function_apply_defaults`.  A failure may come with a message: whether the function requires
at least, or takes at most, so many arguments. -/
def applyDefaults (fn : RegisteredFunction) (args : List ExprResult) :
    Except (Option (String × ℕ)) (List ExprResult) :=
  if args.length < fn.getRequiredParams then
    .error (some ("requires at least", fn.getRequiredParams))
  else if args.length > fn.parameters.length then
    .error (some ("takes at most", fn.parameters.length))
  else
    match fillDefaults (fn.parameters.drop args.length) with
    | some defaults => .ok (args ++ defaults)
    | none => .error none

theorem fillDefaults_eq_some {params : List FunctionParameter} {defaults : List ExprResult}
    (h : fillDefaults params = some defaults) :
    params.map FunctionParameter.defaultValue = defaults.map fun r => some r.value := by
  induction params generalizing defaults with
  | nil =>
      cases h
      rfl
  | cons p params ih =>
      obtain ⟨v, hv, h⟩ := Option.bind_eq_some_iff.mp h
      obtain ⟨rest, hrest, h⟩ := Option.bind_eq_some_iff.mp h
      cases h
      rw [List.map_cons, List.map_cons, hv, ih hrest]
      rfl

theorem fillDefaults_isSome_iff (params : List FunctionParameter) :
    (fillDefaults params).isSome = true ↔ ∀ p ∈ params, p.hasDefault = true := by
  induction params with
  | nil => exact iff_of_true rfl fun p hp => by cases hp
  | cons p params ih =>
      rw [List.forall_mem_cons, ← ih, fillDefaults, FunctionParameter.hasDefault]
      cases p.defaultValue with
      | none => simp
      | some v => cases fillDefaults params <;> simp

/-- What a call of a registered function gets: the arguments, and the defaults of the parameters
without one, all of which have a default. -/
def AppliesAll (fn : RegisteredFunction) : Prop :=
  ∀ args final, fn.applyDefaults args = .ok final →
    ∃ defaults, final = args ++ defaults ∧
      (fn.parameters.drop args.length).map FunctionParameter.defaultValue =
        defaults.map fun r => some r.value

/-- Arguments are never filled up with anything but defaults. -/
theorem appliesAll (fn : RegisteredFunction) : fn.AppliesAll := by
  intro args final h
  unfold applyDefaults at h
  by_cases hfew : args.length < fn.getRequiredParams
  · rw [if_pos hfew] at h
    cases h
  by_cases hmany : args.length > fn.parameters.length
  · rw [if_neg hfew, if_pos hmany] at h
    cases h
  rw [if_neg hfew, if_neg hmany] at h
  cases hfill : fillDefaults (fn.parameters.drop args.length) with
  | none =>
      rw [hfill] at h
      cases h
  | some defaults =>
      rw [hfill] at h
      cases h
      exact ⟨defaults, rfl, fillDefaults_eq_some hfill⟩

/-- The numbers of arguments that pass the two tests of `function_apply_defaults` are all served
if and only if the defaults come last. -/
theorem applyDefaults_succeeds_iff (fn : RegisteredFunction) :
    (∀ args : List ExprResult, fn.getRequiredParams ≤ args.length →
      args.length ≤ fn.parameters.length → ∃ final, fn.applyDefaults args = .ok final) ↔
      DefaultsLast FunctionParameter.hasDefault fn.parameters := by
  have hfill : ∀ args : List ExprResult, fn.getRequiredParams ≤ args.length →
      args.length ≤ fn.parameters.length →
      ((∃ final, fn.applyDefaults args = .ok final) ↔
        ∀ p ∈ fn.parameters.drop args.length, p.hasDefault = true) := by
    intro args hrequired hlength
    rw [← fillDefaults_isSome_iff, applyDefaults, if_neg (Nat.not_lt.mpr hrequired),
      if_neg (Nat.not_lt.mpr hlength)]
    cases fillDefaults (fn.parameters.drop args.length) with
    | none => simp
    | some defaults => simp
  rw [← no_gap_iff]
  constructor
  · intro h n hrequired hlength
    have hargs : (List.replicate n (ExprResult.fromValue .nil)).length = n := List.length_replicate
    have hserved := h (List.replicate n (.fromValue .nil)) (hargs.symm ▸ hrequired)
      (hargs.symm ▸ hlength)
    have hdefaults := (hfill _ (hargs.symm ▸ hrequired) (hargs.symm ▸ hlength)).mp hserved
    rwa [hargs] at hdefaults
  · exact fun h args hrequired hlength =>
      (hfill args hrequired hlength).mpr (h _ hrequired hlength)

end RegisteredFunction

/-! ### All calls -/

namespace Cg

/-- **Every accepted call binds all parameters**, at compile time and for a registered function,
if and only if the parameters of what is called by that name have their defaults last. -/
theorem default_params_iff {cg : Cg} (h : cg.Analysed) (name : Ident) (fn : RegisteredFunction) :
    (cg.CallsBind name ∧ fn.AppliesAll) ↔ cg.DeclaresDefaultsLast name := by
  rw [and_iff_left fn.appliesAll]
  exact callsBind_iff h name

/-- The state after the declaration of a function with these parameters. -/
def declaring (params : List ASTParam) : Cg :=
  { Cg.init with
    functions := [⟨['f'], none, none, params,
      (params.takeWhile fun p => p.default.isNull).length, some (.typeNil, none)⟩] }

theorem analysed_declaring (params : List ASTParam) : (declaring params).Analysed :=
  @Analysed.declareFunction _ _ ⟨['f'], params, .typeNil, none, none⟩ .init rfl

/-- `def f(a: Int, b: Int = 1)`: every accepted call of the function binds both. -/
theorem default_after_required_binds :
    (declaring [⟨['a'], some .int, .null⟩, ⟨['b'], some .int, .int 1⟩]).CallsBind ['f'] := by
  refine ((default_params_iff (analysed_declaring _) ['f'] ⟨none, []⟩).mpr ?_).1
  intro params hcalled
  cases hcalled
  exact .cons (fun p hp h => by cases h) (List.pairwise_singleton _ _)

/-- **`def f(a: Int = 1, b: Int)` accepts the call `f()`**, which leaves `b` without a value. -/
theorem required_after_default_left_out :
    (declaring [⟨['a'], some .int, .int 1⟩, ⟨['b'], some .int, .null⟩]).Analysed ∧
      ¬(declaring [⟨['a'], some .int, .int 1⟩, ⟨['b'], some .int, .null⟩]).CallsBind ['f'] := by
  refine ⟨analysed_declaring _, fun h => ?_⟩
  have := (h _ rfl [] rfl).1 ⟨['b'], some .int, .null⟩ (.tail _ (.head _))
  cases this

end Cg

end BreadLang
