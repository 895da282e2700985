import BreadLang.Compiler.Ast
import Mathlib.Data.List.TakeWhile

/-!
# Type stability

`type_stability_analyze` goes once over a program, with a table of the variables in scope, and
gives each expression that it visits a record.  A use of a variable is marked stable when the
variable is constant, or is local and no assignment to it has been met so far.

The pass looks at declarations, assignments to variables, expression statements, `return`, the
conditions of conditionals and `while` loops, the first branch of a conditional, the bodies of
`while` loops and the bodies of functions.  The `k`-th expression it visits gets the `k`-th record
of the array; its type tag is left to the passes before.  A missing block counts as an empty one,
and the allocations of the analysis are taken to succeed.
-/

namespace BreadLang

/-- `TypeStability`. -/
inductive TypeStability where
  | unknown
  | stable
  | unstable
  | conditional
  deriving DecidableEq

/-- The position in the enumeration. -/
def TypeStability.toNat : TypeStability → ℕ
  | .unknown => 0
  | .stable => 1
  | .unstable => 2
  | .conditional => 3

/-- `TypeStabilityInfo`. -/
structure TypeStabilityInfo where
  type : VarType
  stability : TypeStability
  isConstant : Bool
  isLocal : Bool
  mutationCount : ℕ
  usageCount : ℕ

namespace TypeStabilityInfo

/-- `alloc_info`. -/
def alloc : TypeStabilityInfo := ⟨.typeNil, .unknown, false, false, 0, 0⟩

/-- A record with a mark and nothing else. -/
def marked (stability : TypeStability) : TypeStabilityInfo := { alloc with stability := stability }

/-- The last test of `is_type_stable` and `can_unbox_integer`. -/
def isSettled (info : TypeStabilityInfo) : Bool :=
  info.stability.toNat ≥ TypeStability.conditional.toNat

end TypeStabilityInfo

/-- `is_type_stable`, on the record of an expression. -/
def isTypeStable (info : Option TypeStabilityInfo) : Bool := info.any TypeStabilityInfo.isSettled

/-- `can_unbox_integer`, on the record of an expression. -/
def canUnboxInteger (info : Option TypeStabilityInfo) : Bool :=
  info.any fun info => info.type == .typeInt && info.isSettled

/-! ### The table of variables -/

/-- `TrackedVar`. -/
structure TrackedVar where
  name : Ident
  depth : ℕ
  isConst : Bool
  isLocal : Bool
  mutationCount : ℕ
  usageCount : ℕ
  declaredInLoop : Bool

namespace TrackedVar

/-- One more assignment. -/
def mutate (v : TrackedVar) : TrackedVar := { v with mutationCount := v.mutationCount + 1 }

/-- One more use. -/
def use (v : TrackedVar) : TrackedVar := { v with usageCount := v.usageCount + 1 }

end TrackedVar

/-- `VarTracker`, the last variable first. -/
structure VarTracker where
  vars : List TrackedVar
  depth : ℕ

/-- `MAX_TRACKED_VARS`. -/
def maxTrackedVars : ℕ := 256

namespace VarTracker

/-- `reset_var_tracker`. -/
def empty : VarTracker := ⟨[], 0⟩

/-- `find_var`. -/
def find (t : VarTracker) (name : Ident) : Option TrackedVar :=
  t.vars.find? fun v => v.name == name

/-- `declare_var`. -/
def declare (t : VarTracker) (name : Ident) (isConst isLocal inLoop : Bool) : VarTracker :=
  if t.vars.length ≥ maxTrackedVars then t
  else { t with vars := ⟨name, t.depth, isConst, isLocal, 0, 0, inLoop⟩ :: t.vars }

/-- A change of the variable that `find_var` finds. -/
def modifyFound (f : TrackedVar → TrackedVar) (name : Ident) : List TrackedVar → List TrackedVar
  | [] => []
  | v :: vars => if v.name == name then f v :: vars else v :: modifyFound f name vars

/-- `mark_mutation`. -/
def markMutation (t : VarTracker) (name : Ident) : VarTracker :=
  { t with vars := modifyFound TrackedVar.mutate name t.vars }

/-- `mark_usage`. -/
def markUsage (t : VarTracker) (name : Ident) : VarTracker :=
  { t with vars := modifyFound TrackedVar.use name t.vars }

/-- `enter_scope`. -/
def enterScope (t : VarTracker) : VarTracker := { t with depth := t.depth + 1 }

/-- `leave_scope`. -/
def leaveScope (t : VarTracker) : VarTracker :=
  { vars := t.vars.dropWhile fun v => t.depth ≤ v.depth, depth := t.depth - 1 }

end VarTracker

/-! ### Expressions -/

/-- The mark of a variable in the table; `inLoop` is the depth of loops around the use. -/
def TrackedVar.stability (v : TrackedVar) (inLoop : ℕ) : TypeStability :=
  if v.isConst then .stable
  else if v.mutationCount == 0 && v.isLocal then .stable
  else if v.mutationCount ≤ 1 && !v.declaredInLoop && inLoop == 0 then .conditional
  else .unstable

/-- What a known type tag does to the record of a variable. -/
def TypeStabilityInfo.withTag (info : TypeStabilityInfo) : Option VarType → TypeStabilityInfo
  | none => info
  | some type =>
      { info with
        type := type
        stability := if info.stability == .unstable then .conditional else info.stability }

/-- The record of a variable, when `mark_usage` has counted the use. -/
def variableInfo (found : Option TrackedVar) (inLoop : ℕ) (tag : Option VarType) :
    TypeStabilityInfo :=
  match found with
  | none => (TypeStabilityInfo.marked .unstable).withTag tag
  | some v =>
      TypeStabilityInfo.withTag
        { type := .typeNil
          stability := v.stability inLoop
          isConstant := false
          isLocal := v.isLocal
          mutationCount := v.mutationCount
          usageCount := v.usageCount } tag

/-- `analyze_binary`, once the operands have their records. -/
def binaryInfo (l r : Option TypeStabilityInfo) : TypeStabilityInfo :=
  match l, r with
  | some l, some r =>
      let isDouble (t : VarType) : Bool := t == .typeDouble || t == .typeFloat
      { TypeStabilityInfo.alloc with
        stability :=
          if l.stability == .stable && r.stability == .stable then .stable
          else if l.isSettled && r.isSettled then .conditional
          else .unstable
        isConstant :=
          l.stability == .stable && r.stability == .stable && l.isConstant && r.isConstant
        type :=
          if l.type == .typeInt && r.type == .typeInt then .typeInt
          else if isDouble l.type && isDouble r.type then .typeDouble
          else .typeNil }
  | _, _ => .alloc

/-- The record of a constant. -/
def constantInfo (tag : Option VarType) : TypeStabilityInfo :=
  { TypeStabilityInfo.marked .stable with isConstant := true, type := tag.getD .typeNil }

/-- `analyze_expr`: the records of the expression and of the operands it visits, and the new
table.  `k` is the number of records before. -/
def analyzeExprStability (tag : ℕ → Option VarType) (inLoop : ℕ) (k : ℕ) :
    ASTExpr → VarTracker → List TypeStabilityInfo × VarTracker
  | .null, t => ([], t)
  | .nil, t | .bool _, t | .int _, t | .double _, t | .string _, t | .stringLiteral _, t =>
      ([constantInfo (tag k)], t)
  | .var name, t =>
      let t := t.markUsage name
      ([variableInfo (t.find name) inLoop (tag k)], t)
  | .unary _ operand, t =>
      let r := analyzeExprStability tag inLoop (k + 1) operand t
      (r.1.head?.getD .alloc :: r.1, r.2)
  | .binary _ left right, t =>
      let l := analyzeExprStability tag inLoop (k + 1) left t
      let r := analyzeExprStability tag inLoop (k + 1 + l.1.length) right l.2
      (binaryInfo l.1.head? r.1.head? :: (l.1 ++ r.1), r.2)
  | _, t => ([.marked .unstable], t)

/-! ### Statements -/

/-- `TypeStabilityCtx`, and the table of variables. -/
structure TypeStabilityCtx where
  exprInfo : List TypeStabilityInfo
  currentFunctionDepth : ℕ
  inLoop : ℕ
  vars : VarTracker

namespace TypeStabilityCtx

/-- The context before the first statement. -/
def empty : TypeStabilityCtx := ⟨[], 0, 0, .empty⟩

/-- `analyze_expr` on an expression of a statement. -/
def analyzeExpr (tag : ℕ → Option VarType) (ctx : TypeStabilityCtx) (e : ASTExpr) :
    TypeStabilityCtx :=
  let r := analyzeExprStability tag ctx.inLoop ctx.exprInfo.length e ctx.vars
  { ctx with exprInfo := ctx.exprInfo ++ r.1, vars := r.2 }

/-- A change of the table of variables. -/
def modifyVars (f : VarTracker → VarTracker) (ctx : TypeStabilityCtx) : TypeStabilityCtx :=
  { ctx with vars := f ctx.vars }

/-- `declare_var`. -/
def declareVar (ctx : TypeStabilityCtx) (name : Ident) (isConst isLocal : Bool) :
    TypeStabilityCtx :=
  ctx.modifyVars fun t => t.declare name isConst isLocal (decide (ctx.inLoop > 0))

end TypeStabilityCtx

mutual

/-- `analyze_stmt`. -/
def analyzeStmtStability (tag : ℕ → Option VarType) (ctx : TypeStabilityCtx) :
    ASTStmt → TypeStabilityCtx
  | .varDecl name _ _ init isConst =>
      (ctx.analyzeExpr tag init).declareVar name isConst (decide (ctx.currentFunctionDepth > 0))
  | .varAssign name value _ => (ctx.analyzeExpr tag value).modifyVars (·.markMutation name)
  | .expr e => ctx.analyzeExpr tag e
  | .return e _ => ctx.analyzeExpr tag e
  | .ifStmt condition thenBranch _ =>
      (analyzeBodyStability tag
        ((ctx.analyzeExpr tag condition).modifyVars .enterScope) thenBranch).modifyVars .leaveScope
  | .whileStmt condition body =>
      let inside := { ctx with inLoop := ctx.inLoop + 1 }
      let after := (analyzeBodyStability tag
        ((inside.analyzeExpr tag condition).modifyVars .enterScope) body).modifyVars .leaveScope
      { after with inLoop := after.inLoop - 1 }
  | .funcDecl ⟨_, params, _, _, body⟩ =>
      let inside := { ctx with currentFunctionDepth := ctx.currentFunctionDepth + 1 }
      let start := params.foldl (fun ctx p => ctx.declareVar p.name true true)
        (inside.modifyVars .enterScope)
      let after := (analyzeBodyStability tag start body).modifyVars .leaveScope
      { after with currentFunctionDepth := after.currentFunctionDepth - 1 }
  | _ => ctx

def analyzeBodyStability (tag : ℕ → Option VarType) (ctx : TypeStabilityCtx) :
    Option (List ASTStmt) → TypeStabilityCtx
  | none => ctx
  | some stmts => analyzeStmtsStability tag ctx stmts

def analyzeStmtsStability (tag : ℕ → Option VarType) (ctx : TypeStabilityCtx) :
    List ASTStmt → TypeStabilityCtx
  | [] => ctx
  | s :: stmts => analyzeStmtsStability tag (analyzeStmtStability tag ctx s) stmts

end

/-- `type_stability_analyze`: the records, in the order of the visits. -/
def typeStabilityAnalyze (tag : ℕ → Option VarType) (program : ASTStmtList) :
    List TypeStabilityInfo :=
  (analyzeStmtsStability tag .empty program).exprInfo

end BreadLang
