import BreadLang.Codegen.Ir
import BreadLang.Library.Stateful
import BreadLang.Runtime.ForInLoop

/-!
# What compiled code does to variables

An execution of the emitted code, as far as it concerns variables: the slots of
the activation that runs, and the scopes of the runtime, which all activations
share.  A call pushes a scope, mirrors the parameters in it, and pops it again when
it returns; the code in between finds the variables of the runtime by their names.

What is not about variables is left open.  The value of an operation, the branch
that is taken, the elements of an array and the method that an object has are asked
of an oracle, so that each run of the program is a run for some oracle.
-/

namespace BreadLang

open Stateful

/-- An answer of the oracle. -/
structure Choice where
  value : VarValue
  taken : Bool
  count : ℕ
  /-- The position in the module of the method that is called, if it is a compiled
  one. -/
  callee : Option ℕ

/-- What a run does that the results are about: calls of compiled code, with the
scopes at the call, and uses of a variable of the runtime by its name, with the depth
at which the activation found the scopes. -/
inductive FrameEvent where
  | called (body : CodeBody) (scopes : ScopeStack)
  | used (name : Ident) (scopes : ScopeStack) (base : ℕ)

/-- The state of a run. -/
structure VarMachine where
  scopes : ScopeStack
  /-- The slots of the activation that runs. -/
  slots : StackSlot → VarValue
  oracle : ℕ → Choice
  /-- The number of questions asked. -/
  clock : ℕ
  /-- The events, the newest first. -/
  trace : List FrameEvent

/-- Why a run does not go on. -/
inductive VarStop where
  | fuel
  | stop (s : Stop)
  /-- A function without a body is called. -/
  | noBody
  /-- A `break` or `continue` refers to a scope of another function. -/
  | noLoopScope
  deriving DecidableEq

/-- The monad of runs. -/
abbrev VarM := Stateful VarMachine VarStop

/-- How control leaves a statement. -/
inductive Flow where
  | normal
  | broken
  | continued
  | returned (value : VarValue)

/-- The activation that runs: the depth in `runtime_scope_base_depth_slot`, and the
one in `current_loop_scope_base_depth_slot`, if it is set. -/
structure Activation where
  base : ℕ
  loopBase : Option ℕ

/-! ### Primitive steps -/

/-- The next answer of the oracle. -/
def choose : VarM Choice :=
  modifyGet fun m => (m.oracle m.clock, { m with clock := m.clock + 1 })

/-- An event happens. -/
def note (event : FrameEvent) : VarM Unit :=
  modify fun m => { m with trace := event :: m.trace }

/-- A runtime call that changes the scopes. -/
def onScopes (f : ScopeStack → Exec ScopeStack) : VarM Unit := do
  let scopes ← reads fun m => (f m.scopes).mapError .stop
  modify fun m => { m with scopes }

/-- A store into a slot. -/
def storeInto (slot : StackSlot) (value : VarValue) : VarM Unit :=
  modify fun m => { m with slots := Function.update m.slots slot value }

/-- A load from a slot. -/
def loadFrom (slot : StackSlot) : VarM VarValue :=
  reads fun m => .ok (m.slots slot)

/-- A use of a name by an activation. -/
def useName (base : ℕ) (name : Ident) : VarM Unit := do
  let m ← get
  note (.used name m.scopes base)

/-- `bread_var_load` into a value that holds `nil`. -/
def loadVariable (base : ℕ) (name : Ident) : VarM VarValue := do
  useName base name
  reads fun m => .ok ((breadVarLoad m.scopes name).getD .nil)

section Machine

variable (casts : NumericCasts) (module : List CodeBody)

/-- `bread_var_assign`, whose result is not tested. -/
def assignVariable (base : ℕ) (name : Ident) (value : VarValue) : VarM Unit := do
  useName base name
  onScopes fun scopes => (·.2) <$> breadVarAssign casts scopes name value

/-- `bread_var_decl_if_missing`, whose result is not tested. -/
def declareIfMissing (mirror : VarMirror) (value : VarValue) : VarM Unit :=
  onScopes fun scopes =>
    (·.2) <$> breadVarDeclIfMissing casts scopes mirror.name mirror.type mirror.isConst (some value)

/-- The mirror of a slot, if it has one. -/
def declareMirror (mirror : Option VarMirror) (value : VarValue) : VarM Unit :=
  match mirror with
  | none => pure ()
  | some mirror => declareIfMissing casts mirror value

/-! ### Code -/

/-- The execution of code that is some nested calls away from running out of
fuel. -/
structure Runner where
  fuel : ℕ
  eval : ℕ → Code → VarM VarValue
  exec : Activation → List CodeStmt → VarM Flow
  call : CodeBody → List VarValue → VarM VarValue

variable (r : Runner)

/-- A direct call. -/
def callFunctionBody (fn : LLVMFunction) (args : List VarValue) : VarM VarValue :=
  match module.find? (·.fn = fn) with
  | none => throw .noBody
  | some body => r.call body args

/-- A call through an object, of a compiled method or of a built-in one. -/
def callChosen (args : List VarValue) : VarM VarValue := do
  let choice ← choose
  match choice.callee.bind (module[·]?) with
  | none => return choice.value
  | some body => r.call body args

/-- The value of an operation. -/
def computed : VarM VarValue :=
  (·.value) <$> choose

/-- The execution of the instructions of an expression. -/
def evalCode (base : ℕ) : Code → VarM VarValue
  | .op _ args => do
      let _ ← args.mapM (r.eval base)
      computed
  | .load _ slot => loadFrom slot
  | .cloneSlot slot => loadFrom slot
  | .slot slot => loadFrom slot
  | .selfParam => computed
  | .cloneSelf => computed
  | .varLoad name => loadVariable base name
  | .callFunction fn args => do
      let values ← args.mapM (r.eval base)
      callFunctionBody module r fn values
  | .callMethod fn self args => do
      let _ ← r.eval base self
      let values ← args.mapM (r.eval base)
      callFunctionBody module r fn values
  | .methodCallOp target _ args _ => do
      let _ ← r.eval base target
      let values ← args.mapM (r.eval base)
      callChosen module r values
  | .superInit _ args => do
      let values ← args.mapM (r.eval base)
      callChosen module r values
  | .newInstance _ _ _ _ none => computed
  | .newInstance _ _ _ _ (some args) => do
      let values ← args.mapM (r.eval base)
      callChosen module r values
  | .seq first second => do
      let _ ← r.eval base first
      r.eval base second

/-- The execution of the instructions of a value that may be unboxed. -/
def evalCgValue (base : ℕ) : CgValue → VarM VarValue
  | .boxed none => computed
  | .boxed (some code) => r.eval base code
  | .unboxed _ code => r.eval base code

/-! ### Statements -/

/-- The depth of the scopes. -/
def scopeDepth : VarM ℕ :=
  reads fun m => .ok m.scopes.length

/-- A block with a scope of its own, if it has one, and what is done on entry. -/
def runBlock (act : Activation) (isLoop hasScope : Bool) (enter : VarM Unit)
    (body : List CodeStmt) : VarM Flow := do
  let base ← scopeDepth
  onScopes (setupLoopScope hasScope)
  enter
  let flow ← r.exec
    { act with loopBase := if isLoop && hasScope then some base else act.loopBase } body
  match flow with
  | .normal => do
      onScopes (leaveLoopScope hasScope base)
      return .normal
  | flow => return flow

/-- What follows a turn of a loop. -/
def afterTurn (next : VarM Flow) : Flow → VarM Flow
  | .normal | .continued => next
  | .broken => return .normal
  | .returned value => return .returned value

/-- The turns of a `while` loop. -/
def whileTurns (act : Activation) (condition : Code) (hasScope : Bool) (body : List CodeStmt) :
    ℕ → VarM Flow
  | 0 => throw .fuel
  | n + 1 => do
      let _ ← r.eval act.base condition
      let choice ← choose
      if choice.taken then
        let flow ← runBlock r act true hasScope (pure ()) body
        afterTurn (whileTurns act condition hasScope body n) flow
      else
        return .normal

/-- The turns of a `for` loop over a range, from an index on. -/
def rangeTurns (act : Activation) (name : Ident) (stop step : ℤ) (hasScope : Bool)
    (body : List CodeStmt) : ℕ → ℤ → VarM Flow
  | 0, _ => throw .fuel
  | n + 1, i =>
      if if 0 < step then i < stop else stop < i then do
        let flow ← runBlock r act true hasScope
          (assignVariable casts act.base name (.int (BreadInt.wrap i))) body
        afterTurn (rangeTurns act name stop step hasScope body n ((i + step).bmod (2 ^ 32))) flow
      else
        return .normal

/-- The turns of a `for`-`in` loop of which so many remain. -/
def elementTurns (act : Activation) (name : Ident) (hasScope : Bool) (body : List CodeStmt) :
    ℕ → VarM Flow
  | 0 => return .normal
  | n + 1 => do
      let choice ← choose
      let flow ← runBlock r act true hasScope
        (assignVariable casts act.base name choice.value) body
      afterTurn (elementTurns act name hasScope body n) flow

/-- The pop before the branch of a `break` or `continue`. -/
def leaveLoop (act : Activation) (popsScope : Bool) : VarM Unit :=
  if popsScope then
    match act.loopBase with
    | none => throw .noLoopScope
    | some base => onScopes fun scopes => popToScopeDepth scopes base
  else pure ()

/-- The execution of a statement.  What a `return` pops is popped where the call
ends. -/
def execStmt (act : Activation) : CodeStmt → VarM Flow
  | .eval value => do
      let _ ← r.eval act.base value
      return .normal
  | .print value => do
      let _ ← r.eval act.base value
      return .normal
  | .storeSlot slot value mirror => do
      let v ← r.eval act.base value
      storeInto slot v
      declareMirror casts mirror v
      return .normal
  | .storeUnboxed slot _ value mirror => do
      let v ← evalCgValue r act.base value
      storeInto slot v
      declareMirror casts mirror v
      return .normal
  | .varDecl name type isConst value => do
      let v ← r.eval act.base value
      onScopes fun scopes => (·.2) <$> breadVarDecl casts scopes name type isConst (some v)
      return .normal
  | .varAssign name value => do
      let v ← r.eval act.base value
      assignVariable casts act.base name v
      return .normal
  | .indexSet index target value | .indexUpdate index target _ value => do
      let _ ← r.eval act.base index
      let _ ← r.eval act.base target
      let _ ← r.eval act.base value
      return .normal
  | .memberSet target _ value | .memberUpdate target _ _ value => do
      let _ ← r.eval act.base target
      let _ ← r.eval act.base value
      return .normal
  | .ifThenElse condition hasScope thenCode elseCode => do
      let _ ← r.eval act.base condition
      let choice ← choose
      if choice.taken then
        runBlock r act false hasScope (pure ()) thenCode
      else
        match elseCode with
        | none => return .normal
        | some code => runBlock r act false hasScope (pure ()) code
  | .whileLoop condition hasScope body => whileTurns r act condition hasScope body r.fuel
  | .forRange name start stop step hasScope body => do
      onScopes fun scopes =>
        declareLoopVariable casts scopes name .typeInt (BreadInt.wrap start)
      rangeTurns casts r act name stop step hasScope body r.fuel start
  | .forIn name iterable _ hasScope body => do
      let _ ← r.eval act.base iterable
      let choice ← choose
      if choice.count = 0 then
        return .normal
      else
        onScopes fun scopes => declareLoopVariable casts scopes name .typeNil 0
        elementTurns casts r act name hasScope body choice.count
  | .breakLoop popsScope => do
      leaveLoop act popsScope
      return .broken
  | .continueLoop popsScope => do
      leaveLoop act popsScope
      return .continued
  | .ret value => do
      let v ← r.eval act.base value
      return .returned v
  | .truncated => return .normal

/-- The execution of a list of statements. -/
def execStmts (act : Activation) : List CodeStmt → VarM Flow
  | [] => return .normal
  | s :: rest => do
      match ← execStmt casts r act s with
      | .normal => execStmts act rest
      | flow => return flow

/-! ### Calls -/

/-- The prologue of a function, after the scope is pushed: each parameter gets its
argument and, in a function, a mirror. -/
def setupParameters (body : CodeBody) (args : List VarValue) : VarM Unit :=
  (body.params.zip args).forM fun param => do
    storeInto param.1.2 param.2
    declareMirror casts
      (if body.mirrorsParams then some ⟨param.1.1, .typeNil, false⟩ else none) param.2

/-- The depth to which the epilogue pops: a method does not guard it. -/
def CodeBody.popDepth (body : CodeBody) (base : ℕ) : Flow → ℕ
  | .returned _ => max base 1
  | _ => if body.mirrorsParams then max base 1 else base

/-- The value of a call. -/
def Flow.value : Flow → VarValue
  | .returned value => value
  | _ => .nil

/-- The new activation, up to where its scope is popped. -/
def runActivation (base : ℕ) (body : CodeBody) (args : List VarValue) : VarM Flow := do
  modify fun m => { m with slots := fun _ => .nil }
  setupParameters casts body args
  r.exec ⟨base, none⟩ body.code

/-- A call of compiled code. -/
def callBody (body : CodeBody) (args : List VarValue) : VarM VarValue := do
  let caller ← get
  note (.called body caller.scopes)
  onScopes pushScope
  let flow ← runActivation casts r caller.scopes.length body args
  onScopes fun scopes => popToScopeDepth scopes (body.popDepth caller.scopes.length flow)
  modify fun m => { m with slots := caller.slots }
  return flow.value

/-- The execution with so much fuel. -/
def runner : ℕ → Runner
  | 0 =>
      { fuel := 0
        eval := fun _ _ => throw .fuel
        exec := fun _ _ => throw .fuel
        call := fun _ _ => throw .fuel }
  | n + 1 =>
      { fuel := n
        eval := fun base => evalCode module (runner n) base
        exec := fun act => execStmts casts (runner n) act
        call := fun body => callBody casts (runner n) body }

/-- The state of a run that starts in these scopes. -/
def VarMachine.start (scopes : ScopeStack) (slots : StackSlot → VarValue) (oracle : ℕ → Choice) :
    VarMachine where
  scopes := scopes
  slots := slots
  oracle := oracle
  clock := 0
  trace := []

end Machine

end BreadLang
