import BreadLang.Codegen.Ir
import BreadLang.Library.BasicBlocks
import Mathlib.Logic.Function.Basic

/-!
# The basic blocks of compiled code

How the functions of `codegen_stmt.c` lay the code of a body out in basic blocks: where
they create blocks, position the builder, test for a terminator and emit the calls that
push and pop the scopes of the runtime.  Building an expression creates no block, so the
instructions of a value are one instruction here.

The `context` of an emission is no part of the C code and nothing it emits depends on
it: it has the scopes that are open and the names that have been declared in them, and
`contexts` has the same for the beginning of each block.  `spans` records where each
statement starts and stops.
-/

namespace BreadLang

open BasicBlocks

/-! ### Instructions -/

/-- What keeps a depth of the scopes.  A result of `bread_scope_depth`, and the slot that a
loop keeps it in, are named after the block that the call is emitted into. -/
inductive DepthSource where
  | result (block : ℕ)
  | loopSlot (block : ℕ)
  /-- `runtime_scope_base_depth_slot`. -/
  | functionSlot
  deriving DecidableEq

/-- What is emitted for a loop, or for the copy of a name, besides calls that concern
variables. -/
inductive LoopInstr where
  | initName
  | testName
  | copyByte
  | initRange (start : ℤ)
  | testRange (stop step : ℤ)
  | stepRange (step : ℤ)
  | testKeys
  | initIndex
  | arrayLength
  | testLength
  | testIndex
  | arrayGet
  | testElement
  | stepIndex

/-- The instructions of a block, in groups. -/
inductive Instr where
  | value (code : Code)
  | cgValue (value : CgValue)
  | storeSlot (slot : StackSlot)
  | copyParam (name : Ident)
  | print
  | indexGet
  | indexSet
  | memberGet (member : Ident)
  | memberSet (member : Ident)
  | binaryOp (op : Char)
  | loop (instr : LoopInstr)
  | varDecl (name : Ident) (type : VarType) (isConst : Bool)
  | varDeclIfMissing (mirror : VarMirror)
  | varAssign (name : Ident)
  | scopeDepth
  | storeLoopBase
  | storeFunctionBase
  | pushScope
  | popTo (source : DepthSource)
  /-- To the depth in the slot of the function, or to 1 if that is less. -/
  | popToSafe
  /-- To the depth in the slot of a loop of another function. -/
  | popForeign
  | copyReturn
  | setReturnNil
  | runtimeInit
  | runtimeCleanup

/-- The ends of a block.  A branch may go to a block of another function, which has no
number here. -/
inductive Terminator where
  | br (target : Option ℕ)
  | condBr (thenBlock elseBlock : ℕ)
  | retVoid
  | ret

/-! ### Contexts -/

/-- What is known at a place that control comes to: the scopes that the activation has opened,
the innermost one first, with the names that may be declared in them, and the depths that are
kept on every way to the place.  `none` is a scope whose names are not followed. -/
structure Context where
  scopes : List (Option (List Ident))
  depths : DepthSource → Option ℕ

namespace Context

/-- Before any scope is opened. -/
def empty : Context :=
  ⟨[], fun _ => none⟩

/-- The number of scopes. -/
def depth (γ : Context) : ℕ :=
  γ.scopes.length

/-- A name is declared in the innermost scope. -/
def declare (γ : Context) (name : Ident) : Context :=
  match γ.scopes with
  | some names :: rest => { γ with scopes := some (name :: names) :: rest }
  | _ => γ

/-- A scope is pushed.  It is followed if the scope around it is. -/
def push (γ : Context) : Context :=
  match γ.scopes with
  | some _ :: _ => { γ with scopes := some [] :: γ.scopes }
  | _ => { γ with scopes := none :: γ.scopes }

/-- Scopes are popped until so many are left. -/
def popTo (γ : Context) (depth : ℕ) : Context :=
  { γ with scopes := γ.scopes.drop (γ.depth - depth) }

/-- A depth is kept, if it is known. -/
def keep (γ : Context) (source : DepthSource) (depth : Option ℕ) : Context :=
  { γ with depths := Function.update γ.depths source depth }

end Context

/-- The context after an instruction of a block, if control comes to be there. -/
def Instr.context (block : ℕ) (γ : Context) : Instr → Option Context
  | .varDecl name _ _ => some (γ.declare name)
  | .varDeclIfMissing mirror => some (γ.declare mirror.name)
  | .scopeDepth => some (γ.keep (.result block) (some γ.depth))
  | .storeLoopBase => some (γ.keep (.loopSlot block) (γ.depths (.result block)))
  | .storeFunctionBase => some (γ.keep .functionSlot (γ.depths (.result block)))
  | .pushScope => some γ.push
  | .popTo source => (γ.depths source).map γ.popTo
  | .popToSafe => (γ.depths .functionSlot).map γ.popTo
  | .popForeign => none
  | .runtimeInit => some { γ with scopes := [some []] }
  | .runtimeCleanup => some { γ with scopes := [] }
  | _ => some γ

/-! ### The state of an emission -/

/-- A place in a function: a block, and how many of its items are before it. -/
structure Position where
  block : ℕ
  index : ℕ
  deriving DecidableEq

/-- Where the code of a statement starts and stops, and where the loop has its head, if it
is one; the context before it, and the names that it declares in the scope it stands in. -/
structure Span where
  start : Position
  stop : Position
  head : Option ℕ
  context : Option Context
  declares : List Ident

/-- The builder in a function, and the fields of `Cg` about the innermost loop. -/
structure Emission extends Builder Instr Terminator where
  loopEnd : Option ℕ
  loopContinue : Option ℕ
  loopBase : Option ℕ
  contexts : List (Option Context)
  context : Option Context
  spans : List Span

namespace Emission

/-- The builder at the beginning of a new function. -/
def entry : Emission where
  toBuilder := .entry
  loopEnd := none
  loopContinue := none
  loopBase := none
  contexts := [some .empty]
  context := some .empty
  spans := []

/-- Where the builder is positioned. -/
def here (e : Emission) : Position :=
  ⟨e.current, (e.block e.current).length⟩

/-- Emit an instruction. -/
def instr (e : Emission) (i : Instr) : Emission :=
  { e with
    toBuilder := e.toBuilder.append (.instr i)
    context := e.context.bind (Instr.context e.current · i) }

/-- Emit instructions. -/
def instrs (e : Emission) (is : List Instr) : Emission :=
  is.foldl instr e

/-- Emit a terminator. -/
def terminate (e : Emission) (t : Terminator) : Emission :=
  { e with
    toBuilder := e.toBuilder.append (.terminator t)
    context := none }

/-- `LLVMAppendBasicBlock`, so many times. -/
def addBlocks (e : Emission) (n : ℕ) (γ : Option Context) : Emission :=
  { e with
    toBuilder := e.toBuilder.addBlocks n
    contexts := e.contexts ++ List.replicate n γ }

/-- `LLVMPositionBuilderAtEnd`. -/
def positionAt (e : Emission) (block : ℕ) : Emission :=
  { e with
    toBuilder := e.toBuilder.positionAt block
    context := e.contexts.getD block none }

/-- A branch, if the current block has no terminator. -/
def branchIfOpen (e : Emission) (target : ℕ) : Emission :=
  if e.hasTerminator then e else e.terminate (.br target)

/-! ### Blocks with scopes -/

/-- `push_scope_if_global`, the statements of a branch, and `pop_scope_if_needed`. -/
def scopedBranch (hasScope : Bool) (body : Emission → Emission) (e : Emission) : Emission :=
  if hasScope then
    let base := e.current
    let e := body (e.instrs [.scopeDepth, .pushScope])
    if e.hasTerminator then e else e.instr (.popTo (.result base))
  else body e

/-- `setup_loop_state`. -/
def setupLoopState (e : Emission) (endBlock continueBlock : ℕ) : Emission :=
  { e with loopEnd := some endBlock, loopContinue := some continueBlock }

/-- `restore_loop_state`. -/
def restoreLoopState (e outer : Emission) : Emission :=
  { e with
    loopEnd := outer.loopEnd
    loopContinue := outer.loopContinue
    loopBase := outer.loopBase }

/-- `setup_loop_scope`. -/
def setupLoopScope (e : Emission) (hasScope : Bool) : Emission :=
  if hasScope then
    { e.instrs [.scopeDepth, .pushScope, .storeLoopBase] with loopBase := some e.current }
  else e

/-- The body of a loop, from `setup_loop_scope` to the branch to the next turn. -/
def loopBody (hasScope : Bool) (enter : List Instr) (body : Emission → Emission) (next : ℕ)
    (e : Emission) : Emission :=
  let base := e.current
  let e := body ((e.setupLoopScope hasScope).instrs enter)
  if e.hasTerminator then e
  else (if hasScope then e.instr (.popTo (.result base)) else e).terminate (.br next)

/-! ### Statements with blocks of their own -/

/-- `handle_boxed_var_decl` at top level, which copies the name to the stack first. -/
def varDecl (name : Ident) (type : VarType) (isConst : Bool) (value : Code) (e : Emission) :
    Emission :=
  let e := e.instr (.value value)
  let copyLoop := e.size
  let e := (e.addBlocks 3 e.context).instr (.loop .initName)
  let e := (e.terminate (.br copyLoop)).positionAt copyLoop
  let e := (e.instr (.loop .testName)).terminate (.condBr (copyLoop + 2) (copyLoop + 1))
  let e := ((e.positionAt (copyLoop + 1)).instr (.loop .copyByte)).terminate (.br copyLoop)
  (e.positionAt (copyLoop + 2)).instr (.varDecl name type isConst)

/-- `build_if_stmt`. -/
def ifThenElse (condition : Code) (hasScope : Bool) (thenCode : Emission → Emission)
    (elseCode : Option (Emission → Emission)) (e : Emission) : Emission :=
  let e := e.instr (.value condition)
  let thenBlock := e.size
  let e := (e.addBlocks 3 e.context).terminate (.condBr thenBlock (thenBlock + 1))
  let e := scopedBranch hasScope thenCode (e.positionAt thenBlock)
  let e := (e.branchIfOpen (thenBlock + 2)).positionAt (thenBlock + 1)
  let e := match elseCode with
    | none => e
    | some elseCode => scopedBranch hasScope elseCode e
  (e.branchIfOpen (thenBlock + 2)).positionAt (thenBlock + 2)

/-- `build_while_stmt`. -/
def whileLoop (condition : Code) (hasScope : Bool) (body : Emission → Emission) (e : Emission) :
    Emission :=
  let cond := e.size
  let outer := e
  let e := (e.addBlocks 3 e.context).setupLoopState (cond + 2) cond
  let e := (e.terminate (.br cond)).positionAt cond
  let e := (e.instr (.value condition)).terminate (.condBr (cond + 1) (cond + 2))
  let e := loopBody hasScope [] body cond (e.positionAt (cond + 1))
  (e.restoreLoopState outer).positionAt (cond + 2)

/-- `build_for_stmt`. -/
def forRange (name : Ident) (start stop step : ℤ) (hasScope : Bool) (body : Emission → Emission)
    (e : Emission) : Emission :=
  let cond := e.size
  let outer := e
  let e := (e.addBlocks 4 (e.context.map (·.declare name))).setupLoopState (cond + 3) (cond + 2)
  let e := e.instrs [.loop (.initRange start), .varDeclIfMissing ⟨name, .typeInt, false⟩]
  let e := (e.terminate (.br cond)).positionAt cond
  let e := (e.instr (.loop (.testRange stop step))).terminate (.condBr (cond + 1) (cond + 3))
  let e := loopBody hasScope [.varAssign name] body (cond + 2) (e.positionAt (cond + 1))
  let e := ((e.positionAt (cond + 2)).instr (.loop (.stepRange step))).terminate (.br cond)
  (e.restoreLoopState outer).positionAt (cond + 3)

/-- The end of `get_iterable_for_loop` for a dictionary: the failure of
`bread_dict_keys` leaves the loop. -/
def checkKeys (failTarget : ℕ) (e : Emission) : Emission :=
  let success := e.size
  let e := (e.addBlocks 2 e.context).instr (.loop .testKeys)
  let e := (e.terminate (.condBr success (success + 1))).positionAt (success + 1)
  (e.terminate (.br failTarget)).positionAt success

/-- An instruction that tests something, and a branch to a new block or else to the given
one. -/
def testOrLeave (test : LoopInstr) (γ : Option Context) (leave : ℕ) (e : Emission) : Emission :=
  let next := e.size
  let e := (e.instr (.loop test)).addBlocks 1 γ
  (e.terminate (.condBr next leave)).positionAt next

/-- `build_for_in_stmt`. -/
def forIn (name : Ident) (iterable : Code) (isDict hasScope : Bool) (body : Emission → Emission)
    (e : Emission) : Emission :=
  let setup := e.size
  let outer := e
  let γ := e.context.map (·.declare name)
  let e := ((e.addBlocks 1 e.context).addBlocks 4 γ).setupLoopState (setup + 4) (setup + 3)
  let e := ((e.terminate (.br setup)).positionAt setup).instr (.value iterable)
  let e := if isDict then e.checkKeys (setup + 4) else e
  let e := e.instrs [.loop .initIndex, .loop .arrayLength]
  let e := e.testOrLeave .testLength e.context (setup + 4)
  let e := (e.instr (.varDeclIfMissing ⟨name, .typeNil, false⟩)).terminate (.br (some (setup + 1)))
  let e := (e.positionAt (setup + 1)).instr (.loop .testIndex)
  let e := (e.terminate (.condBr (setup + 2) (setup + 4))).positionAt (setup + 2)
  let e := (e.instr (.loop .arrayGet)).testOrLeave .testElement γ (setup + 4)
  let e := loopBody hasScope [.varAssign name] body (setup + 3) e
  let e := ((e.positionAt (setup + 3)).instr (.loop .stepIndex)).terminate (.br (some (setup + 1)))
  (e.restoreLoopState outer).positionAt (setup + 4)

/-- `build_break_stmt` and `build_continue_stmt`.  Outside of the loops of the function,
what they use belongs to another one. -/
def leaveLoop (e : Emission) (popsScope : Bool) (target : Option ℕ) : Emission :=
  let e := match e.loopBase with
    | some base => e.instr (.popTo (.loopSlot base))
    | none => if popsScope then e.instr .popForeign else e
  e.terminate (.br target)

end Emission

/-! ### Statements -/

/-- The instruction that declares the mirror of a slot, if it has one. -/
def mirrorInstrs : Option VarMirror → List Instr
  | none => []
  | some mirror => [.varDeclIfMissing mirror]

/-- The head of a loop that is emitted when the function has so many blocks. -/
def CodeStmt.loopHead (size : ℕ) : CodeStmt → Option ℕ
  | .whileLoop _ _ _ => some size
  | .forRange _ _ _ _ _ _ => some size
  | .forIn _ _ _ _ _ => some (size + 1)
  | _ => none

/-- The names that a statement declares in its own scope. -/
def CodeStmt.declares : CodeStmt → List Ident
  | .varDecl name _ _ _ => [name]
  | .forRange name _ _ _ _ _ => [name]
  | .forIn name _ _ _ _ => [name]
  | .storeSlot _ _ (some mirror) => [mirror.name]
  | .storeUnboxed _ _ _ (some mirror) => [mirror.name]
  | _ => []

/-- The span of a statement is recorded. -/
def Emission.record (s : CodeStmt) (e e' : Emission) : Emission :=
  { e' with spans := ⟨e.here, e'.here, s.loopHead e.size, e.context, s.declares⟩ :: e'.spans }

mutual

/-- `cg_build_stmt`.  What is built of a body that is given up counts as one
instruction. -/
def emitStmt : CodeStmt → Emission → Emission
  | .eval value, e => e.instr (.value value)
  | .print value, e => e.instrs [.value value, .print]
  | .storeSlot slot value mirror, e =>
      e.instrs ([.value value, .storeSlot slot] ++ mirrorInstrs mirror)
  | .storeUnboxed slot _ value mirror, e =>
      e.instrs ([.cgValue value, .storeSlot slot] ++ mirrorInstrs mirror)
  | .varDecl name type isConst value, e => e.varDecl name type isConst value
  | .varAssign name value, e => e.instrs [.value value, .varAssign name]
  | .indexSet index target value, e =>
      e.instrs [.value index, .value target, .value value, .indexSet]
  | .indexUpdate index target op value, e =>
      e.instrs [.value index, .value target, .indexGet, .value value, .binaryOp op, .indexSet]
  | .memberSet target member value, e =>
      e.instrs [.value target, .value value, .memberSet member]
  | .memberUpdate target member op value, e =>
      e.instrs [.value target, .memberGet member, .value value, .binaryOp op, .memberSet member]
  | .ifThenElse condition hasScope thenCode elseCode, e =>
      e.ifThenElse condition hasScope (fun e => emitStmts thenCode e)
        (match elseCode with
          | none => none
          | some code => some fun e => emitStmts code e)
  | .whileLoop condition hasScope body, e =>
      e.whileLoop condition hasScope fun e => emitStmts body e
  | .forRange name start stop step hasScope body, e =>
      e.forRange name start stop step hasScope fun e => emitStmts body e
  | .forIn name iterable isDict hasScope body, e =>
      e.forIn name iterable isDict hasScope fun e => emitStmts body e
  | .breakLoop popsScope, e => e.leaveLoop popsScope e.loopEnd
  | .continueLoop popsScope, e => e.leaveLoop popsScope e.loopContinue
  | .ret value, e =>
      (e.instrs [.value value, .copyReturn, .popToSafe]).terminate .retVoid
  | .truncated, e => e.instr (.value (.op .setNil []))

/-- `cg_build_stmt_list`. -/
def emitStmts : List CodeStmt → Emission → Emission
  | [], e => e
  | s :: rest, e => emitStmts rest (e.record s (emitStmt s e))

end

/-! ### Bodies -/

/-- What a body is the body of. -/
inductive BodyKind where
  | main
  | function (params : List Ident)
  | method (isConstructor : Bool)

namespace BodyKind

/-- What is emitted before the statements: `emit_runtime_init_calls`,
`setup_function_scope` with `setup_function_parameters`, or `setup_method_scope`. -/
def prologue : BodyKind → List Instr
  | .main => [.runtimeInit]
  | .function params =>
      [.scopeDepth, .storeFunctionBase, .pushScope] ++
        params.flatMap fun name => [.copyParam name, .varDeclIfMissing ⟨name, .typeNil, false⟩]
  | .method _ => [.scopeDepth, .storeFunctionBase, .pushScope]

/-- What is emitted after them in a function, if the last block has no terminator:
`cleanup_function_scope`, or `ensure_function_return` of `codegen_stmt.c`. -/
def epilogue : BodyKind → List Instr
  | .method isConstructor =>
      (if isConstructor then [] else [.setReturnNil]) ++ [.popTo .functionSlot]
  | _ => [.popToSafe]

/-- What is emitted after the statements.  In `main` the cleanup calls are emitted in any
case. -/
def finish : BodyKind → Emission → Emission
  | .main, e =>
      let e := e.instr .runtimeCleanup
      if e.hasTerminator then e else e.terminate .ret
  | kind, e =>
      if e.hasTerminator then e else (e.instrs kind.epilogue).terminate .retVoid

end BodyKind

/-- The blocks of a body. -/
def emitBody (kind : BodyKind) (code : List CodeStmt) : Emission :=
  kind.finish (emitStmts code (Emission.entry.instrs kind.prologue))

end BreadLang
