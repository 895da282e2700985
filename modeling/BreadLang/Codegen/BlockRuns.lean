import BreadLang.Codegen.Activation
import BreadLang.Codegen.ScopedLowering
import BreadLang.Runtime.VarStore
import Mathlib.Logic.Relation

/-!
# Runs of compiled code

The basic blocks of all bodies, run together on the one stack of scopes that the runtime has.
An activation is a frame with a place in its body and the depths that its slots hold.  A
value may call any function of the module, any number of times, and what is not about scopes
is left open: the values, and which way a branch goes.

`step_agrees` is the step lemma.  In every state that is reached, each frame has the scopes
of the context at its place, above those that it found (`reachable_agrees`).
-/

namespace BreadLang

open BasicBlocks BasicBlocks.Builder Stateful

/-! ### Scopes by the names in them -/

/-- The names of the variables in each scope. -/
def ScopeStack.names (scopes : ScopeStack) : List (List Ident) :=
  List.map (List.map Variable.name) scopes

@[simp] theorem ScopeStack.length_names (scopes : ScopeStack) :
    (ScopeStack.names scopes).length = scopes.length :=
  List.length_map _

/-- A scope has no names but those that may be declared in it. -/
def NamesLe (names : List Ident) (scope : Option (List Ident)) : Prop :=
  ∀ names', scope = some names' → names ⊆ names'

theorem NamesLe.trans {names : List Ident} {scope scope' : Option (List Ident)}
    (h : NamesLe names scope) (h' : Context.ScopeLe scope scope') : NamesLe names scope' := by
  intro names'' hscope'
  obtain ⟨names', hscope, hsubset⟩ := h' names'' hscope'
  exact List.Subset.trans (h names' hscope) hsubset

theorem forall₂_namesLe_trans {own : List (List Ident)} {scopes scopes' : List (Option (List Ident))}
    (h : List.Forall₂ NamesLe own scopes) (h' : List.Forall₂ Context.ScopeLe scopes scopes') :
    List.Forall₂ NamesLe own scopes' := by
  induction h generalizing scopes' with
  | nil =>
      cases h'
      exact .nil
  | cons hfirst _ ih =>
      cases h' with
      | cons hfirst' hrest' => exact .cons (hfirst.trans hfirst') (ih hrest')

/-! ### Instructions -/

/-- The outcome of a call that changes the scopes only. -/
def keepDepths (depths : DepthSource → ℕ) (outcome : Exec ScopeStack) :
    Except VarStop (ScopeStack × (DepthSource → ℕ)) :=
  match outcome with
  | .ok scopes => .ok (scopes, depths)
  | .error stop => .error (.stop stop)

section Run

variable (casts : NumericCasts)

/-- What an instruction of a block does to the scopes and to the depths that are kept.  The
value is the one that is stored, if one is. -/
def Instr.run (block : ℕ) (value : VarValue) (scopes : ScopeStack) (depths : DepthSource → ℕ) :
    Instr → Except VarStop (ScopeStack × (DepthSource → ℕ))
  | .varDecl name type isConst => keepDepths depths
      ((·.2) <$> breadVarDecl casts scopes name type isConst (some value))
  | .varDeclIfMissing mirror => keepDepths depths
      ((·.2) <$> breadVarDeclIfMissing casts scopes mirror.name mirror.type mirror.isConst
        (some value))
  | .varAssign name => keepDepths depths ((·.2) <$> breadVarAssign casts scopes name value)
  | .scopeDepth => .ok (scopes, Function.update depths (.result block) scopes.length)
  | .storeLoopBase =>
      .ok (scopes, Function.update depths (.loopSlot block) (depths (.result block)))
  | .storeFunctionBase =>
      .ok (scopes, Function.update depths .functionSlot (depths (.result block)))
  | .pushScope => keepDepths depths (BreadLang.pushScope scopes)
  | .popTo source => keepDepths depths (popToScopeDepth scopes (depths source))
  | .popToSafe => keepDepths depths (popToScopeDepth scopes (max (depths .functionSlot) 1))
  | .popForeign => .error .noLoopScope
  | .runtimeInit => .ok (.init, depths)
  | .runtimeCleanup => .ok ([], depths)
  | _ => .ok (scopes, depths)

/-- An instruction that may call functions. -/
def Instr.calls : Instr → Bool
  | .value _ | .cgValue _ => true
  | _ => false

/-! ### Steps -/

/-- An activation: the body that it runs, its place in it, the depths that it keeps, and the
names in the scopes that it found. -/
structure BlockFrame where
  body : Emission
  position : Position
  depths : DepthSource → ℕ
  outer : List (List Ident)

/-- What stands at the place of an activation. -/
def BlockFrame.item (frame : BlockFrame) : Option (Item Instr Terminator) :=
  (frame.body.block frame.position.block)[frame.position.index]?

/-- What is known at the place of an activation. -/
def BlockFrame.context (frame : BlockFrame) : Option Context :=
  frame.body.factAt frame.position.block frame.position.index

/-- The next place in the block. -/
def BlockFrame.advance (frame : BlockFrame) (depths : DepthSource → ℕ) : BlockFrame :=
  { frame with
    position := { frame.position with index := frame.position.index + 1 }
    depths := depths }

/-- The beginning of a block. -/
def BlockFrame.goto (frame : BlockFrame) (block : ℕ) : BlockFrame :=
  { frame with position := ⟨block, 0⟩ }

/-- The state of a run: the activations, the innermost one first, and the scopes. -/
structure BlockMachine where
  frames : List BlockFrame
  scopes : ScopeStack

/-- **One step** of a run. -/
inductive BlockStep (functions : List Emission) : BlockMachine → BlockMachine → Prop where
  | instr {frame : BlockFrame} {rest : List BlockFrame} {scopes scopes' : ScopeStack}
      {depths : DepthSource → ℕ} {i : Instr} {value : VarValue}
      (hitem : frame.item = some (.instr i))
      (hrun : i.run casts frame.position.block value scopes frame.depths = .ok (scopes', depths)) :
      BlockStep functions ⟨frame :: rest, scopes⟩ ⟨frame.advance depths :: rest, scopes'⟩
  /-- The slots of a new activation hold anything. -/
  | call {frame : BlockFrame} {rest : List BlockFrame} {scopes : ScopeStack} {i : Instr}
      {body : Emission} {depths : DepthSource → ℕ} (hitem : frame.item = some (.instr i))
      (hcalls : i.calls = true) (hbody : body ∈ functions) :
      BlockStep functions ⟨frame :: rest, scopes⟩
        ⟨⟨body, ⟨0, 0⟩, depths, ScopeStack.names scopes⟩ :: frame :: rest, scopes⟩
  | branch {frame : BlockFrame} {rest : List BlockFrame} {scopes : ScopeStack} {t : Terminator}
      {target : ℕ} (hitem : frame.item = some (.terminator t)) (htarget : target ∈ t.targets) :
      BlockStep functions ⟨frame :: rest, scopes⟩ ⟨frame.goto target :: rest, scopes⟩
  | returned {frame : BlockFrame} {rest : List BlockFrame} {scopes : ScopeStack}
      (hitem : frame.item = some (.terminator .retVoid)) :
      BlockStep functions ⟨frame :: rest, scopes⟩ ⟨rest, scopes⟩

end Run

/-! ### Programs -/

/-- **The compiled code of a program**: that of `main`, whose blocks have scopes, and that of
the functions, whose blocks have none. -/
structure BlockProgram where
  main : List CodeStmt
  functions : List (BodyKind × List CodeStmt)
  main_scoped : CodeScoped true main
  functions_scoped : ∀ f ∈ functions, f.1.cleansUp = false ∧ CodeScoped false f.2

namespace BlockProgram

variable (P : BlockProgram) (casts : NumericCasts)

/-- The emitted functions besides `main`. -/
def bodies : List Emission :=
  P.functions.map fun f => emitBody f.1 f.2

/-- **A module that is built** is such a program, whatever its functions are the bodies of. -/
theorem exists_of_buildModule {kind : CodeBody → BodyKind}
    (hkind : ∀ body, (kind body).cleansUp = false) {n : ℕ} {program : ASTStmtList} {cg : Cg}
    {main : List CodeStmt} (h : (buildModule n program).result cg = .ok main)
    (hcg : cg.module = []) : ∃ P : BlockProgram, P.main = main ∧
      P.functions = ((buildModule n program).final cg).module.map fun body =>
        (kind body, body.code) := by
  have hempty : ModuleScoped cg := by
    rw [ModuleScoped, hcg]
    exact fun body hbody => absurd hbody List.not_mem_nil
  obtain ⟨hmain, hmodule⟩ := buildModule_scoped h hempty
  refine ⟨⟨main, _, hmain, fun f hf => ?_⟩, rfl, rfl⟩
  obtain ⟨body, hbody, rfl⟩ := List.mem_map.mp hf
  exact ⟨hkind body, hmodule body hbody⟩

/-- `print(1)` is built as a program without functions. -/
theorem exists_printsOne : ∃ main, (buildModule 3 [.print (.int 1)]).result .init = .ok main ∧
    ∃ P : BlockProgram, P.main = main ∧
      P.functions = ((buildModule 3 [.print (.int 1)]).final .init).module.map fun body =>
        (.function [], body.code) := by
  have hbuilt : ∃ main, (buildModule 3 [.print (.int 1)]).result .init = .ok main := ⟨_, rfl⟩
  obtain ⟨main, hbuilt⟩ := hbuilt
  exact ⟨main, hbuilt, exists_of_buildModule (fun _ => rfl) hbuilt rfl⟩

/-- The states that a run of `main` gets to.  The program starts without a scope. -/
def Reachable (m : BlockMachine) : Prop :=
  ∃ depths, Relation.ReflTransGen (BlockStep casts P.bodies)
    ⟨[⟨emitBody .main P.main, ⟨0, 0⟩, depths, []⟩], []⟩ m

/-- `f()`, with a function that does nothing. -/
def callingProgram : BlockProgram where
  main := [.eval (.callFunction ⟨"f".toList, 0, 1⟩ [])]
  functions := [(.function [], [])]
  main_scoped := ⟨trivial, trivial⟩
  functions_scoped := by
    intro f hf
    obtain rfl := List.mem_singleton.mp hf
    exact ⟨rfl, trivial⟩

namespace callingProgram

/-- The activation of `main`, at an item of its block. -/
def mainFrame (index : ℕ) : BlockFrame :=
  ⟨emitBody .main callingProgram.main, ⟨0, index⟩, fun _ => 0, []⟩

/-- The depths that the function keeps, when one scope is open at the call. -/
def depths : DepthSource → ℕ :=
  Function.update (Function.update (fun _ => 0) (.result 0) 1) .functionSlot 1

/-- The activation of the function in its own scope. -/
def calledFrame (index : ℕ) : BlockFrame :=
  ⟨emitBody (.function []) [], ⟨0, index⟩, depths, [[]]⟩

/-- At the call. -/
def atCall : BlockMachine :=
  ⟨[mainFrame 1], [[]]⟩

/-- Behind the call. -/
def afterCall : BlockMachine :=
  ⟨[mainFrame 2], [[]]⟩

/-- The one statement of the program. -/
def statement : Span :=
  ⟨⟨0, 1⟩, ⟨0, 2⟩, none, some ⟨[some []], fun _ => none⟩, []⟩

/-- At the beginning of the function. -/
def entered : BlockMachine :=
  ⟨[⟨emitBody (.function []) [], ⟨0, 0⟩, fun _ => 0, [[]]⟩, mainFrame 1], [[]]⟩

/-- Before the scope of the function is popped. -/
def beforePop : BlockMachine :=
  ⟨[calledFrame 3, mainFrame 1], [[], []]⟩

/-- Before the function returns. -/
def atReturn : BlockMachine :=
  ⟨[calledFrame 4, mainFrame 1], [[]]⟩

theorem reachable_atCall : callingProgram.Reachable zeroCasts atCall :=
  ⟨fun _ => 0, .single (@BlockStep.instr _ _ (mainFrame 0) _ _ _ _ .runtimeInit .nil rfl rfl)⟩

theorem reachable_afterCall : callingProgram.Reachable zeroCasts afterCall := by
  obtain ⟨depths, hrun⟩ := reachable_atCall
  exact ⟨depths, hrun.tail (@BlockStep.instr _ _ (mainFrame 1) _ _ _ _
    (.value (.callFunction ⟨"f".toList, 0, 1⟩ [])) .nil rfl rfl)⟩

theorem step_entered : BlockStep zeroCasts callingProgram.bodies atCall entered :=
  .call rfl rfl List.mem_cons_self

/-- The beginning of the function, and its pop. -/
theorem steps_called {r : BlockMachine → BlockMachine → Prop}
    (h : ∀ m m', BlockStep zeroCasts callingProgram.bodies m m' → m'.frames.length = 2 → r m m') :
    Relation.ReflTransGen r entered beforePop ∧ r beforePop atReturn := by
  have hstep (index : ℕ) (before after : DepthSource → ℕ) (scopes scopes' : ScopeStack) (i : Instr)
      (hitem : ((emitBody (.function []) []).block 0)[index]? = some (.instr i))
      (hrun : i.run zeroCasts 0 .nil scopes before = .ok (scopes', after)) :
      r ⟨[⟨emitBody (.function []) [], ⟨0, index⟩, before, [[]]⟩, mainFrame 1], scopes⟩
        ⟨[⟨emitBody (.function []) [], ⟨0, index + 1⟩, after, [[]]⟩, mainFrame 1], scopes'⟩ :=
    h _ _ (.instr hitem hrun) rfl
  have hdepth := hstep 0 (fun _ => 0) _ [[]] _ .scopeDepth rfl rfl
  have hstore := hstep 1 _ depths [[]] _ .storeFunctionBase rfl rfl
  have hpush := hstep 2 depths _ [[]] _ .pushScope rfl rfl
  exact ⟨((Relation.ReflTransGen.single hdepth).tail hstore).tail hpush,
    hstep 3 depths _ [[], []] _ .popToSafe rfl rfl⟩

theorem reachable_beforePop : callingProgram.Reachable zeroCasts beforePop := by
  obtain ⟨depths, hcall⟩ := reachable_atCall
  exact ⟨depths, (hcall.tail step_entered).trans (steps_called fun _ _ h _ => h).1⟩

end callingProgram

end BlockProgram

/-! ### Instructions and contexts -/

/-- **The scopes match a context** above those that the activation found: as many are open,
with no names but those of the context, and the depths that it keeps are counted from there.
`main` finds no scope, a function at least one. -/
structure Context.Matches (γ : Context) (inMain : Bool) (outer names : List (List Ident))
    (depths : DepthSource → ℕ) : Prop where
  own : ∃ own, names = own ++ outer ∧ List.Forall₂ NamesLe own γ.scopes
  depths : ∀ source d, γ.depths source = some d → depths source = outer.length + d
  main : inMain = true → outer = []
  function : inMain = false → 1 ≤ outer.length

section Match

variable {γ γ' : Context} {inMain : Bool} {outer names : List (List Ident)}
  {depths : DepthSource → ℕ} {casts : NumericCasts} {scopes scopes' : ScopeStack} {name : Ident}

namespace Context.Matches

theorem length (h : γ.Matches inMain outer names depths) :
    names.length = outer.length + γ.depth := by
  obtain ⟨own, rfl, hown⟩ := h.own
  rw [List.length_append, hown.length_eq, Nat.add_comm]
  rfl

/-- What fits a context is matched with it. -/
theorem fits (h : γ.Matches inMain outer names depths) (hfits : γ.Fits γ') :
    γ'.Matches inMain outer names depths := by
  obtain ⟨own, hnames, hown⟩ := h.own
  refine ⟨⟨own, hnames, ?_⟩, fun source d hd => h.depths source d (hfits.2 source d hd),
    h.main, h.function⟩
  exact forall₂_namesLe_trans hown hfits.1

/-- A name is declared in the innermost scope. -/
theorem declare {scope : List Ident} {rest : List (List Ident)}
    (h : γ.Matches inMain outer (scope :: rest) depths) (hdeep : 1 ≤ γ.depth) :
    (γ.declare name).Matches inMain outer ((scope ++ [name]) :: rest) depths := by
  obtain ⟨own, hnames, hown⟩ := h.own
  refine ⟨?_, ?_, h.main, h.function⟩
  · cases hscopes : γ.scopes with
    | nil =>
        rw [Context.depth, hscopes] at hdeep
        cases hdeep
    | cons first scopes =>
        rw [hscopes] at hown
        cases hown with
        | @cons own₁ _ own₂ _ hfirst hown =>
            obtain ⟨rfl, rfl⟩ := List.cons_eq_cons.mp hnames
            refine ⟨(scope ++ [name]) :: own₂, rfl, ?_⟩
            cases first with
            | none =>
                rw [declare_of_unfollowed (by rw [hscopes]; rfl), hscopes]
                exact .cons (by rintro _ ⟨⟩) hown
            | some names =>
                have hdeclared : (γ.declare name).scopes = some (name :: names) :: scopes := by
                  unfold Context.declare
                  rw [hscopes]
                rw [hdeclared]
                refine .cons (fun names' h => ?_) hown
                obtain rfl := Option.some.inj h
                refine List.append_subset.mpr ⟨?_, by simp⟩
                exact List.Subset.trans (hfirst names rfl) (List.subset_cons_self name names)
  · intro source d hd
    rw [depths_declare] at hd
    exact h.depths source d hd

/-- A scope is pushed. -/
theorem push (h : γ.Matches inMain outer names depths) :
    γ.push.Matches inMain outer ([] :: names) depths := by
  obtain ⟨own, rfl, hown⟩ := h.own
  refine ⟨⟨[] :: own, rfl, ?_⟩, fun source d hd => ?_, h.main, h.function⟩
  · have hpushed : ∃ first, γ.push.scopes = first :: γ.scopes := by
      unfold Context.push
      split <;> exact ⟨_, rfl⟩
    obtain ⟨first, hscopes⟩ := hpushed
    rw [hscopes]
    exact .cons (fun names _ => List.nil_subset names) hown
  · rw [depths_push] at hd
    exact h.depths source d hd

/-- The scopes are popped to a depth that the activation has. -/
theorem pop {d : ℕ} (h : γ.Matches inMain outer names depths) (hd : d ≤ γ.depth) :
    (γ.popTo d).Matches inMain outer (names.drop (names.length - (outer.length + d))) depths := by
  have hlength := h.length
  obtain ⟨own, rfl, hown⟩ := h.own
  refine ⟨⟨own.drop (γ.depth - d), ?_, ?_⟩, h.depths, h.main, h.function⟩
  · have hown_length : own.length = γ.depth := hown.length_eq
    rw [show (own ++ outer).length - (outer.length + d) = γ.depth - d by omega,
      List.drop_append_of_le_length (by omega)]
  · exact List.forall₂_drop _ hown

/-- A depth is kept. -/
theorem keep {source : DepthSource} {depth : Option ℕ} {n : ℕ}
    (h : γ.Matches inMain outer names depths) (hn : ∀ d, depth = some d → n = outer.length + d) :
    (γ.keep source depth).Matches inMain outer names (Function.update depths source n) := by
  refine ⟨h.own, fun source' d hd => ?_, h.main, h.function⟩
  by_cases hsource : source' = source
  · subst hsource
    rw [depths_keep_self] at hd
    rw [Function.update_self, hn d hd]
  · rw [depths_keep_of_ne hsource] at hd
    rw [Function.update_of_ne hsource, h.depths source' d hd]

end Context.Matches

/-! ### Names under the calls of the runtime -/

theorem gives_names_assignFound {v : Variable} {value : VarValue} :
    ScopeStack.names (assignFound casts scopes v value).2 = ScopeStack.names scopes := by
  unfold assignFound
  split
  · rfl
  · exact names_setVariable _ _ _

theorem gives_names_varAssign {value : VarValue} :
    Gives (breadVarAssign casts scopes name value) fun r =>
      ScopeStack.names r.2 = ScopeStack.names scopes := by
  unfold breadVarAssign
  split
  · exact gives_ok rfl
  · split
    · exact gives_error
    · exact gives_ok gives_names_assignFound

theorem gives_names_varDecl {type : VarType} {isConst : Bool} {value : VarValue} :
    Gives (breadVarDecl casts scopes name type isConst (some value)) fun r =>
      ∃ scope rest, ScopeStack.names scopes = scope :: rest ∧
        ScopeStack.names r.2 = (scope ++ [name]) :: rest := by
  refine gives_bind declareVariableRaw_spec ?_
  rintro _ ⟨scope, rest, rfl, -, -, rfl⟩
  have hnames : ScopeStack.names ((scope ++ [⟨name, type.zero, isConst⟩]) :: rest) =
      (List.map Variable.name scope ++ [name]) :: ScopeStack.names rest := by
    rw [ScopeStack.names, List.map_cons, List.map_append]
    rfl
  dsimp only
  split
  · exact gives_pure ⟨_, _, rfl, hnames⟩
  · exact gives_pure ⟨_, _, rfl, gives_names_assignFound.trans hnames⟩

theorem gives_keepDepths {outcome : Exec ScopeStack} {Q : ScopeStack × (DepthSource → ℕ) → Prop}
    (h : Gives outcome fun scopes => Q (scopes, depths)) : Gives (keepDepths depths outcome) Q := by
  unfold keepDepths
  split
  · exact gives_ok (h _ rfl)
  · exact gives_error

/-- A pop to a depth that is kept does not fail. -/
theorem popToScopeDepth_of_matches {d : ℕ}
    (h : γ.Matches inMain outer (ScopeStack.names scopes) depths) (hd : d ≤ γ.depth)
    (hpos : inMain.toNat ≤ d) :
    popToScopeDepth scopes (outer.length + d) =
      .ok (scopes.drop (scopes.length - (outer.length + d))) := by
  have hlength := h.length
  rw [ScopeStack.length_names] at hlength
  refine popToScopeDepth_of_le ?_ (by omega)
  cases inMain with
  | true => exact Nat.add_pos_right _ hpos
  | false => exact Nat.add_pos_left (h.function rfl) _

theorem names_drop (n : ℕ) :
    ScopeStack.names (scopes.drop n) = (ScopeStack.names scopes).drop n :=
  List.map_drop

/-- The scopes after a pop match the context after it. -/
theorem pop_matches {d : ℕ} (h : γ.Matches inMain outer (ScopeStack.names scopes) depths)
    (hd : d ≤ γ.depth) (hpos : inMain.toNat ≤ d) :
    Gives (popToScopeDepth scopes (outer.length + d)) fun scopes' =>
      (γ.popTo d).Matches inMain outer (ScopeStack.names scopes') depths := by
  rw [popToScopeDepth_of_matches h hd hpos]
  refine gives_ok ?_
  rw [names_drop, ← ScopeStack.length_names]
  exact h.pop hd

/-- **An instruction** takes scopes that match the context before it to ones that match the
context behind it. -/
theorem run_matches {contexts : List (Option Context)} (block : ℕ) {value : VarValue} {i : Instr}
    (h : γ.Matches inMain outer (ScopeStack.names scopes) depths)
    (hsuits : Suits inMain contexts (.instr i) γ) :
    Gives (i.run casts block value scopes depths) fun r =>
      ∃ γ', i.context block γ = some γ' ∧
        γ'.Matches inMain outer (ScopeStack.names r.1) r.2 := by
  have hdeclared {scopes' : ScopeStack} {name : Ident} (hdeep : 1 ≤ γ.depth)
      (hnames : ∃ scope rest, ScopeStack.names scopes = scope :: rest ∧
        ScopeStack.names scopes' = (scope ++ [name]) :: rest) :
      (γ.declare name).Matches inMain outer (ScopeStack.names scopes') depths := by
    obtain ⟨scope, rest, hscopes, hscopes'⟩ := hnames
    rw [hscopes']
    exact (hscopes ▸ h).declare hdeep
  cases i with
  | varDecl name type isConst =>
      exact gives_keepDepths (gives_map (gives_names_varDecl.mono fun r hr =>
        ⟨_, rfl, hdeclared hsuits hr⟩))
  | varDeclIfMissing mirror =>
      refine gives_keepDepths (gives_map ?_)
      unfold breadVarDeclIfMissing
      split
      · exact gives_ok ⟨_, rfl, h.fits (Context.fits_declare γ mirror.name)⟩
      · exact gives_names_varDecl.mono fun r hr => ⟨_, rfl, hdeclared hsuits hr⟩
  | varAssign name =>
      refine gives_keepDepths (gives_map (gives_names_varAssign.mono fun r hr => ?_))
      exact ⟨γ, rfl, hr.symm ▸ h⟩
  | scopeDepth =>
      refine gives_ok ⟨_, rfl, h.keep fun d hd => ?_⟩
      obtain rfl := Option.some.inj hd
      rw [← ScopeStack.length_names, h.length]
  | storeLoopBase => exact gives_ok ⟨_, rfl, h.keep fun d hd => h.depths _ d hd⟩
  | storeFunctionBase => exact gives_ok ⟨_, rfl, h.keep fun d hd => h.depths _ d hd⟩
  | pushScope =>
      refine gives_keepDepths ?_
      unfold BreadLang.pushScope runtimeAbort
      split
      · exact gives_error
      · exact gives_ok ⟨_, rfl, h.push⟩
  | popTo source =>
      obtain ⟨d, hd, hpos, hle⟩ := hsuits
      refine gives_keepDepths ?_
      rw [h.depths source d hd]
      refine (pop_matches h hle hpos).mono fun scopes' hscopes' => ⟨γ.popTo d, ?_, hscopes'⟩
      rw [Instr.context, hd]
      rfl
  | popToSafe =>
      obtain ⟨rfl, hslot⟩ := hsuits
      have hbase : 1 ≤ outer.length + 0 := h.function rfl
      refine gives_keepDepths ?_
      rw [h.depths _ 0 hslot, Nat.max_eq_left hbase]
      refine (pop_matches h (Nat.zero_le _) le_rfl).mono fun scopes' hscopes' =>
        ⟨γ.popTo 0, ?_, hscopes'⟩
      rw [Instr.context, hslot]
      rfl
  | popForeign => exact gives_error
  | runtimeInit =>
      obtain rfl := h.main hsuits
      exact gives_ok ⟨_, rfl, ⟨[[]], rfl, .cons (fun names _ => List.nil_subset names) .nil⟩,
        h.depths, fun _ => rfl, h.function⟩
  | runtimeCleanup =>
      obtain rfl := h.main hsuits
      exact gives_ok ⟨_, rfl, ⟨[], rfl, .nil⟩, h.depths, fun _ => rfl, h.function⟩
  | _ => exact gives_ok ⟨γ, rfl, h⟩

end Match

/-! ### Frames -/

namespace BlockProgram

variable (P : BlockProgram) (casts : NumericCasts)

/-- A frame runs a body of the program. -/
inductive Runs : Bool → Emission → Prop where
  | main : Runs true (emitBody .main P.main)
  | function {body : Emission} (h : body ∈ P.bodies) : Runs false body

/-- **Every activation matches the context at its place**, above the scopes that it found. -/
def Agrees : List BlockFrame → List (List Ident) → Prop
  | [], _ => True
  | frame :: rest, names =>
      (∃ inMain γ, P.Runs inMain frame.body ∧ frame.context = some γ ∧
        γ.Matches inMain frame.outer names frame.depths) ∧ Agrees rest frame.outer

section Runs

variable {P casts} {m m' : BlockMachine} {frame : BlockFrame} {rest : List BlockFrame}
  {inMain : Bool} {body : Emission}

theorem Runs.tracked (h : P.Runs inMain body) : body.Tracked inMain := by
  cases h with
  | main => exact emitBody_tracked .main P.main_scoped
  | function h =>
      obtain ⟨f, hf, rfl⟩ := List.mem_map.mp h
      obtain ⟨hkind, hcode⟩ := P.functions_scoped f hf
      have htracked := emitBody_tracked f.1 (hkind.symm ▸ hcode)
      rwa [hkind] at htracked

theorem Runs.entry (h : P.Runs inMain body) : body.factAt 0 0 = some .empty := by
  cases h with
  | main => exact factAt_entry .main P.main_scoped
  | function h =>
      obtain ⟨f, hf, rfl⟩ := List.mem_map.mp h
      obtain ⟨hkind, hcode⟩ := P.functions_scoped f hf
      exact factAt_entry f.1 (hkind.symm ▸ hcode)

/-- No function is `main`. -/
theorem Runs.eq_true (h : P.Runs inMain (emitBody .main P.main)) : inMain = true :=
  h.tracked.sound 0 0 (.instr .runtimeInit) .empty (item_entry_main P.main_scoped) h.entry

/-- What stands at the place of an activation suits the context. -/
theorem Runs.suits (h : P.Runs inMain frame.body) {γ : Context} {x : Item Instr Terminator}
    (hcontext : frame.context = some γ) (hitem : frame.item = some x) :
    Suits inMain frame.body.contexts x γ :=
  h.tracked.sound _ _ x γ hitem hcontext

/-- No scope of its own is open where an activation begins. -/
theorem matches_empty {outer : List (List Ident)} {depths : DepthSource → ℕ}
    (hmain : inMain = true → outer = []) (hfunction : inMain = false → 1 ≤ outer.length) :
    Context.empty.Matches inMain outer outer depths where
  own := ⟨[], rfl, .nil⟩
  depths := nofun
  main := hmain
  function := hfunction

/-- **One step** keeps the agreement of the activations with their places. -/
theorem step_agrees (hstep : BlockStep casts P.bodies m m')
    (h : P.Agrees m.frames (ScopeStack.names m.scopes)) :
    P.Agrees m'.frames (ScopeStack.names m'.scopes) := by
  cases hstep with
  | @instr frame rest scopes scopes' depths i value hitem hrun =>
      obtain ⟨⟨inMain, γ, hruns, hcontext, hmatches⟩, hrest⟩ := h
      obtain ⟨γ', hγ', hmatches'⟩ :=
        run_matches frame.position.block hmatches (hruns.suits hcontext hitem) _ hrun
      refine ⟨⟨inMain, γ', hruns, ?_, hmatches'⟩, hrest⟩
      have hfact : (frame.advance depths).context =
          frame.context.bind (Instr.transfer frame.position.block i) := factAt_instr hitem
      rw [hfact, hcontext]
      exact hγ'
  | @call frame rest scopes i body depths hitem hcalls hbody =>
      obtain ⟨inMain, γ, hruns, hcontext, hmatches⟩ := h.1
      have hdeep : 1 ≤ γ.depth := by
        have hsuits := hruns.suits hcontext hitem
        cases i with
        | value code => exact hsuits
        | cgValue value => exact hsuits
        | _ => cases hcalls
      refine ⟨⟨false, .empty, .function hbody, (Runs.function hbody).entry, ?_⟩, h⟩
      refine matches_empty nofun fun _ => ?_
      have hlength : (ScopeStack.names scopes).length = frame.outer.length + γ.depth :=
        hmatches.length
      show 1 ≤ (ScopeStack.names scopes).length
      omega
  | @branch frame rest scopes t target hitem htarget =>
      obtain ⟨⟨inMain, γ, hruns, hcontext, hmatches⟩, hrest⟩ := h
      have ht : t ≠ .retVoid := by
        rintro rfl
        cases htarget
      obtain ⟨γ', hγ', hfits⟩ :=
        (suits_terminator ht).mp (hruns.suits hcontext hitem) target htarget
      exact ⟨⟨inMain, γ', hruns, hγ', hmatches.fits hfits⟩, hrest⟩
  | @returned frame rest scopes hitem =>
      obtain ⟨⟨inMain, γ, hruns, hcontext, hmatches⟩, hrest⟩ := h
      have hdepth : γ.depth = 0 := hruns.suits hcontext hitem
      obtain ⟨own, hnames, hown⟩ := hmatches.own
      have hempty : own = [] := List.eq_nil_of_length_eq_zero (hown.length_eq.trans hdepth)
      rw [hempty, List.nil_append] at hnames
      exact hnames.symm ▸ hrest

/-- **In every state of a run** the activations agree with their places. -/
theorem reachable_agrees (h : P.Reachable casts m) :
    P.Agrees m.frames (ScopeStack.names m.scopes) := by
  obtain ⟨depths, hrun⟩ := h
  induction hrun with
  | refl =>
      exact ⟨⟨true, .empty, .main, Runs.main.entry, matches_empty (fun _ => rfl) nofun⟩, trivial⟩
  | tail _ hstep ih => exact step_agrees hstep ih

/-- The innermost activation, and what is known at its place. -/
theorem exists_matches (h : P.Reachable casts m) (hframes : m.frames = frame :: rest) :
    ∃ inMain γ, P.Runs inMain frame.body ∧ frame.context = some γ ∧
      γ.Matches inMain frame.outer (ScopeStack.names m.scopes) frame.depths := by
  have hagrees := reachable_agrees h
  rw [hframes] at hagrees
  exact hagrees.1

/-! ### Statements -/

/-- The places of a statement where nothing of it is going on: before it, behind it, and at
the head of the loop that it is. -/
def AtEdge (span : Span) (position : Position) : Prop :=
  position = span.start ∨ position = span.stop ∨
    ∃ b, span.head = some b ∧ position = ⟨b, 0⟩

/-- The scopes at an edge of a statement are those before it, with the names that it
declares. -/
theorem context_at_edge {span : Span} (h : frame.body.SpanOk span)
    (hedge : AtEdge span frame.position) {γ' : Context} (hcontext : frame.context = some γ') :
    ∃ γ, span.context = some γ ∧
      List.Forall₂ Context.ScopeLe γ'.scopes (γ.declareAll span.declares).scopes := by
  have hafter {after : Option Context} (hdeclares : Emission.Declares span.context after span.declares)
      (hγ' : after = some γ') : ∃ γ, span.context = some γ ∧
        List.Forall₂ Context.ScopeLe γ'.scopes (γ.declareAll span.declares).scopes := by
    obtain ⟨γ, hγ, hscopes⟩ := hdeclares γ' hγ'
    exact ⟨γ, hγ, hscopes ▸ List.forall₂_same.mpr fun scope _ => Context.ScopeLe.refl scope⟩
  rw [BlockFrame.context] at hcontext
  rcases hedge with hstart | hstop | ⟨b, hb, hhead⟩
  · rw [hstart, h.start] at hcontext
    exact ⟨γ', hcontext, Context.forall₂_scopeLe_declareAll γ' _⟩
  · rw [hstop] at hcontext
    exact hafter h.stop hcontext
  · rw [hhead] at hcontext
    exact hafter (h.head b hb).2 hcontext

/-- **The scopes are balanced** around every statement of every body: on every way through
it, with whatever calls, as many scopes are open behind it, and in each turn of a loop, as
before it. -/
theorem scopes_balanced (hruns : P.Runs inMain body) {span : Span} (hspan : span ∈ body.spans) :
    ∃ d, ∀ m frame rest, P.Reachable casts m → m.frames = frame :: rest → frame.body = body →
      AtEdge span frame.position → m.scopes.length = frame.outer.length + d := by
  have hok := hruns.tracked.spans span hspan
  refine ⟨(span.context.map Context.depth).getD 0, fun m frame rest hm hframes hbody hedge => ?_⟩
  obtain ⟨_, γ', -, hcontext, hmatches⟩ := exists_matches hm hframes
  obtain ⟨γ, hγ, hscopes⟩ := context_at_edge (hbody ▸ hok) hedge hcontext
  have hdepth : γ'.depth = (γ.declareAll span.declares).depth := hscopes.length_eq
  rw [← ScopeStack.length_names, hmatches.length, hdepth, Context.depth_declareAll, hγ]
  rfl

theorem callingProgram_balanced : ∃ d, ∀ m frame rest, callingProgram.Reachable zeroCasts m →
    m.frames = frame :: rest → frame.body = emitBody .main callingProgram.main →
      AtEdge callingProgram.statement frame.position → m.scopes.length = frame.outer.length + d :=
  scopes_balanced .main List.mem_cons_self

/-- **The scopes are lexical** in `main`: behind a statement, and at the head of a loop, they
have no variable but those that the context before it has and, in the innermost scope, those
that the statement declares.  The variables of its blocks are gone. -/
theorem scopes_lexical (hm : P.Reachable casts m) (hframes : m.frames = frame :: rest)
    (hbody : frame.body = emitBody .main P.main) {span : Span} (hspan : span ∈ frame.body.spans)
    (hedge : AtEdge span frame.position) : ∃ γ, span.context = some γ ∧
      List.Forall₂ NamesLe (ScopeStack.names m.scopes) (γ.declareAll span.declares).scopes := by
  obtain ⟨inMain, γ', hruns, hcontext, hmatches⟩ := exists_matches hm hframes
  obtain ⟨γ, hγ, hscopes⟩ := context_at_edge (hruns.tracked.spans span hspan) hedge hcontext
  have hmain : inMain = true := (hbody ▸ hruns).eq_true
  obtain ⟨own, hnames, hown⟩ := hmatches.own
  rw [hmatches.main hmain, List.append_nil] at hnames
  exact ⟨γ, hγ, hnames ▸ forall₂_namesLe_trans hown hscopes⟩

theorem callingProgram_lexical : ∃ γ, callingProgram.statement.context = some γ ∧
    List.Forall₂ NamesLe (ScopeStack.names callingProgram.afterCall.scopes)
      (γ.declareAll callingProgram.statement.declares).scopes :=
  scopes_lexical callingProgram.reachable_afterCall rfl rfl List.mem_cons_self (.inr (.inl rfl))

/-- **Control does not run off a block**: if each block of the body is complete, something
stands at the place of the innermost activation. -/
theorem exists_item (hm : P.Reachable casts m) (hframes : m.frames = frame :: rest)
    (hwf : WellFormed frame.body.toBuilder) : ∃ x, frame.item = some x := by
  obtain ⟨_, γ, hruns, hcontext, -⟩ := exists_matches hm hframes
  refine exists_item_of_factAt hwf ?_ hcontext
  rw [← hruns.tracked.length]
  by_contra hle
  have hnone : frame.body.contexts.getD frame.position.block none = none :=
    List.getD_eq_default _ _ (Nat.le_of_not_lt hle)
  rw [BlockFrame.context, Emission.factAt, factAt, hnone, factAfter_none] at hcontext
  cases hcontext

theorem callingProgram_item : ∃ x, (callingProgram.mainFrame 1).item = some x :=
  exists_item callingProgram.reachable_atCall rfl
    ((emitBody_wellFormed_iff_code .main _).mpr ⟨rfl, fun _ => rfl⟩)

/-- **A pop never fails**: the depth that it is to is one that the activation has. -/
theorem pop_ok (hm : P.Reachable casts m) (hframes : m.frames = frame :: rest) {i : Instr}
    (hitem : frame.item = some (.instr i)) (hi : i = .popToSafe ∨ ∃ source, i = .popTo source)
    (value : VarValue) :
    ∃ scopes, i.run casts frame.position.block value m.scopes frame.depths =
      .ok (scopes, frame.depths) ∧ frame.outer.length ≤ scopes.length := by
  obtain ⟨inMain, γ, hruns, hcontext, hmatches⟩ := exists_matches hm hframes
  have hpop {d : ℕ} (hd : d ≤ γ.depth) (hpos : inMain.toNat ≤ d) :
      ∃ scopes, keepDepths frame.depths (popToScopeDepth m.scopes (frame.outer.length + d)) =
        .ok (scopes, frame.depths) ∧ frame.outer.length ≤ scopes.length := by
    have hlength := hmatches.length
    rw [ScopeStack.length_names] at hlength
    refine ⟨_, by rw [popToScopeDepth_of_matches hmatches hd hpos]; rfl, ?_⟩
    rw [List.length_drop]
    omega
  have hsuits := hruns.suits hcontext hitem
  rcases hi with rfl | ⟨source, rfl⟩
  · obtain ⟨rfl, hslot⟩ := hsuits
    have hbase : 1 ≤ frame.outer.length + 0 := hmatches.function rfl
    rw [Instr.run, hmatches.depths _ 0 hslot, Nat.max_eq_left hbase]
    exact hpop (Nat.zero_le _) le_rfl
  · obtain ⟨d, hd, hpos, hle⟩ := hsuits
    rw [Instr.run, hmatches.depths source d hd]
    exact hpop hle hpos

theorem callingProgram_pop : ∃ scopes, Instr.popToSafe.run zeroCasts 0 .nil
    callingProgram.beforePop.scopes callingProgram.depths = .ok (scopes, callingProgram.depths) ∧
      1 ≤ scopes.length :=
  pop_ok callingProgram.reachable_beforePop rfl rfl (.inl rfl) .nil

/-! ### Calls -/

/-- The scopes that a function leaves when it returns. -/
theorem names_at_return (hm : P.Reachable casts m) (hframes : m.frames = frame :: rest)
    (hitem : frame.item = some (.terminator .retVoid)) :
    ScopeStack.names m.scopes = frame.outer := by
  obtain ⟨inMain, γ, hruns, hcontext, hmatches⟩ := exists_matches hm hframes
  have hdepth : γ.depth = 0 := hruns.suits hcontext hitem
  obtain ⟨own, hnames, hown⟩ := hmatches.own
  rw [hnames, List.eq_nil_of_length_eq_zero (hown.length_eq.trans hdepth), List.nil_append]

/-- A run in which more than so many activations are there all the time. -/
def RunsAbove (P : BlockProgram) (casts : NumericCasts) (n : ℕ) :
    BlockMachine → BlockMachine → Prop :=
  Relation.ReflTransGen fun m m' => BlockStep casts P.bodies m m' ∧ n < m'.frames.length

/-- The activation of a call stays what it is while the call runs. -/
theorem runsAbove_frames {m₁ m₂ : BlockMachine} {callers : List BlockFrame}
    {outer : List (List Ident)} (hrun : RunsAbove P casts callers.length m₁ m₂)
    (h : ∃ inner frame, m₁.frames = inner ++ frame :: callers ∧ frame.outer = outer) :
    ∃ inner frame, m₂.frames = inner ++ frame :: callers ∧ frame.outer = outer := by
  induction hrun with
  | refl => exact h
  | tail _ hstep ih =>
      obtain ⟨inner, frame, hframes, houter⟩ := ih
      obtain ⟨hstep, hlt⟩ := hstep
      -- The innermost activation is the one of the call, or another one above it.
      have htop {top : BlockFrame} {below : List BlockFrame}
          (heq : top :: below = inner ++ frame :: callers) (top' : BlockFrame)
          (hsame : top'.outer = top.outer) :
          ∃ inner frame, top' :: below = inner ++ frame :: callers ∧ frame.outer = outer := by
        cases inner with
        | nil =>
            obtain ⟨rfl, rfl⟩ := List.cons_eq_cons.mp heq
            exact ⟨[], top', rfl, hsame.trans houter⟩
        | cons first inner =>
            obtain ⟨-, rfl⟩ := List.cons_eq_cons.mp heq
            exact ⟨top' :: inner, frame, rfl, houter⟩
      cases hstep with
      | instr hitem hrun => exact htop hframes _ rfl
      | branch hitem htarget => exact htop hframes _ rfl
      | call hitem hcalls hbody => exact ⟨_ :: inner, frame, congrArg _ hframes, houter⟩
      | returned hitem =>
          cases inner with
          | nil =>
              obtain ⟨-, rfl⟩ := List.cons_eq_cons.mp hframes
              exact absurd hlt (Nat.lt_irrefl _)
          | cons first inner =>
              obtain ⟨-, rfl⟩ := List.cons_eq_cons.mp hframes
              exact ⟨inner, frame, rfl, houter⟩

/-- **A call leaves the scopes of its caller**: whatever it does and calls, when it has
returned, the activations are the ones before it, and there are as many scopes, with variables
of the same names. -/
theorem call_returns {m₁ m₂ m₃ : BlockMachine} (hm : P.Reachable casts m)
    (hcall : BlockStep casts P.bodies m m₁) (hmore : m₁.frames.length = m.frames.length + 1)
    (hrun : RunsAbove P casts m.frames.length m₁ m₂) (hreturn : BlockStep casts P.bodies m₂ m₃)
    (hback : m₃.frames.length = m.frames.length) :
    m₃.frames = m.frames ∧ ScopeStack.names m₃.scopes = ScopeStack.names m.scopes := by
  have hreached : P.Reachable casts m₂ := by
    obtain ⟨depths, hbefore⟩ := hm
    exact ⟨depths, (hbefore.tail hcall).trans (Relation.ReflTransGen.mono (fun _ _ hstep => hstep.1) _ _ hrun)⟩
  have hcalled : ∃ frame, m₁.frames = frame :: m.frames ∧
      frame.outer = ScopeStack.names m.scopes := by
    cases hcall with
    | instr => exact absurd hmore (Nat.ne_of_lt (Nat.lt_succ_self _))
    | branch => exact absurd hmore (Nat.ne_of_lt (Nat.lt_succ_self _))
    | returned =>
        simp only [List.length_cons] at hmore
        omega
    | call => exact ⟨_, rfl, rfl⟩
  obtain ⟨frame₁, hframe₁, houter₁⟩ := hcalled
  obtain ⟨inner, frame, hframes, houter⟩ :=
    runsAbove_frames hrun ⟨[], frame₁, hframe₁, houter₁⟩
  have hlength := congrArg List.length hframes
  rw [List.length_append, List.length_cons] at hlength
  cases hreturn with
  | instr | branch | call =>
      simp only [List.length_cons] at hback hlength
      omega
  | returned hitem =>
      cases inner with
      | cons first inner =>
          simp only [List.length_cons] at hback hlength
          omega
      | nil =>
          obtain ⟨rfl, rfl⟩ := List.cons_eq_cons.mp hframes
          exact ⟨rfl, (names_at_return hreached rfl hitem).trans houter⟩

theorem callingProgram_returns : callingProgram.atCall.frames = callingProgram.atCall.frames ∧
    ScopeStack.names callingProgram.atReturn.scopes =
      ScopeStack.names callingProgram.atCall.scopes := by
  have hrun := @callingProgram.steps_called
    (fun m m' => BlockStep zeroCasts callingProgram.bodies m m' ∧ 1 < m'.frames.length)
    fun _ _ h hlength => ⟨h, hlength.ge⟩
  exact @call_returns callingProgram zeroCasts callingProgram.atCall callingProgram.entered
    callingProgram.atReturn ⟨[callingProgram.mainFrame 1], [[]]⟩ callingProgram.reachable_atCall
    callingProgram.step_entered rfl (hrun.1.tail hrun.2) (.returned rfl) rfl

/-! ### The global scope -/

/-- **Between the statements of the program** only the global scope is open, and it has only
variables that the statements before declare, none of a block. -/
theorem global_scope_at {k : ℕ} (hm : P.Reachable casts m) (hframes : m.frames = frame :: rest)
    (hbody : frame.body = emitBody .main P.main)
    (hposition : frame.position =
      (emitStmts (P.main.take k) (Emission.entry.instrs BodyKind.main.prologue)).here) :
    ∃ names, ScopeStack.names m.scopes = [names] ∧
      names ⊆ (P.main.take k).flatMap CodeStmt.declares := by
  obtain ⟨inMain, γ, hruns, hcontext, hmatches⟩ := exists_matches hm hframes
  have hmain : inMain = true := (hbody ▸ hruns).eq_true
  have hsplit : P.main.take k ++ P.main.drop k = P.main := List.take_append_drop k P.main
  have hscoped := P.main_scoped
  rw [← hsplit] at hscoped
  have hbetween := factAt_between hscoped
  rw [hsplit] at hbetween
  have hcarries := (scoped_stmts _ (codeScoped_append.mp hscoped).1 _ ready_main).carries
  rw [BlockFrame.context, hbody, hposition] at hcontext
  obtain ⟨γ₀, hγ₀, hscopes, -⟩ := hcarries γ (hbetween.symm.trans hcontext)
  obtain rfl := Option.some.inj hγ₀
  have hscopes := hscopes.trans (Context.scopes_declareAll rfl)
  obtain ⟨own, hnames, hown⟩ := hmatches.own
  rw [hmatches.main hmain, List.append_nil] at hnames
  rw [hscopes] at hown
  cases hown with
  | @cons names _ _ _ hfirst hrest =>
      cases hrest
      refine ⟨names, hnames, fun name hname => ?_⟩
      have hmem := hfirst _ rfl hname
      rwa [List.append_nil, List.mem_reverse] at hmem

theorem callingProgram_global : ∃ names,
    ScopeStack.names callingProgram.afterCall.scopes = [names] ∧
      names ⊆ (callingProgram.main.take 1).flatMap CodeStmt.declares :=
  global_scope_at callingProgram.reachable_afterCall rfl rfl rfl

end Runs

end BlockProgram

end BreadLang
