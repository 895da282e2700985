import BreadLang.Compiler.RecursiveCalls
import Mathlib.Data.List.Basic

/-!
# Facts for the optimiser

`optimization_analyze` walks over the statements of a program, those in the branches of
conditionals, in the bodies of `while` and `for` loops and in the bodies of functions included.
It keeps a record of hints for each of the first 1024 statements and a record of facts for each
of the first 64 functions that are declared among them.

The counters are taken as numbers without a bound: where one of them overflows, the C code has no
meaning.  The allocations are taken to succeed.
-/

namespace BreadLang

/-- `InlineHeuristic`. -/
inductive InlineHeuristic where
  | never
  | cold
  | normal
  | hot
  | always
  deriving DecidableEq

/-- The hint before this one: `--` on the enumeration. -/
def InlineHeuristic.pred : InlineHeuristic → InlineHeuristic
  | .always => .hot
  | .hot => .normal
  | .normal => .cold
  | .cold | .never => .never

/-- `FunctionOptInfo`, without a field that is never written. -/
structure FunctionOptInfo where
  inlineHint : InlineHeuristic
  instructionCount : ℕ
  callCount : ℕ
  isRecursive : Bool
  isLeaf : Bool
  parameterCount : ℕ

/-- `OptimizationHints`, as `memset` leaves it. -/
structure OptimizationHints where
  isHotPath : Bool := false
  isColdPath : Bool := false
  branchProbability : ℕ := 0
  canSpeculate : Bool := false
  isPure : Bool := false

mutual

/-- `estimate_instruction_count`. -/
def estimateInstructionCount : ASTStmt → ℕ
  | .varDecl _ _ _ init _ => 1 + 2 + if init.isNull then 0 else 3
  | .varAssign _ _ _ => 1 + 2
  | .print _ => 1 + 5
  | .ifStmt _ thenBranch elseBranch =>
      1 + 2 + estimateBody thenBranch + estimateBody elseBranch
  | .whileStmt _ body => 1 + 3 + estimateBody body * 2
  | .forStmt _ _ body => 1 + 4 + estimateBody body * 2
  | .return _ _ => 1 + 1
  | .expr _ => 1 + 2
  | _ => 1 + 1

def estimateBody : Option (List ASTStmt) → ℕ
  | none => 0
  | some stmts => estimateStmts stmts

def estimateStmts : List ASTStmt → ℕ
  | [] => 0
  | s :: stmts => estimateInstructionCount s + estimateStmts stmts

end

mutual

/-- `count_expr_function_calls`. -/
def countExprFunctionCalls : ASTExpr → ℕ
  | .call _ args => 1 + countExprsFunctionCalls args
  | .methodCall target _ args _ =>
      1 + countExprFunctionCalls target + countExprsFunctionCalls args
  | .binary _ left right => countExprFunctionCalls left + countExprFunctionCalls right
  | .unary _ operand => countExprFunctionCalls operand
  | .index target i => countExprFunctionCalls target + countExprFunctionCalls i
  | .member target _ _ => countExprFunctionCalls target
  | .array items => countExprsFunctionCalls items
  | .dict entries => countEntriesFunctionCalls entries
  | _ => 0

/-- The loop over the arguments of a call or the items of an array. -/
def countExprsFunctionCalls : List ASTExpr → ℕ
  | [] => 0
  | e :: es => countExprFunctionCalls e + countExprsFunctionCalls es

/-- The loop over the entries of a dictionary. -/
def countEntriesFunctionCalls : List (ASTExpr × ASTExpr) → ℕ
  | [] => 0
  | (key, value) :: entries =>
      countExprFunctionCalls key + countExprFunctionCalls value +
        countEntriesFunctionCalls entries

end

mutual

/-- `count_function_calls`. -/
def countFunctionCalls : ASTStmt → ℕ
  | .print _ => 1
  | .ifStmt _ thenBranch elseBranch =>
      countBodyFunctionCalls thenBranch + countBodyFunctionCalls elseBranch
  | .whileStmt _ body => countBodyFunctionCalls body
  | .forStmt _ _ body => countBodyFunctionCalls body
  | .expr e => countExprFunctionCalls e
  | _ => 0

def countBodyFunctionCalls : Option (List ASTStmt) → ℕ
  | none => 0
  | some stmts => countStmtsFunctionCalls stmts

def countStmtsFunctionCalls : List ASTStmt → ℕ
  | [] => 0
  | s :: stmts => countFunctionCalls s + countStmtsFunctionCalls stmts

end

/-- The inline hint that `analyze_function_optimization` chooses by what it has counted. -/
def inlineHintFor (isRecursive isLeaf : Bool) (instructionCount : ℕ) : InlineHeuristic :=
  if isRecursive then .never
  else if instructionCount ≤ 3 && isLeaf then .always
  else if instructionCount ≤ 10 && isLeaf then .hot
  else if instructionCount ≤ 25 then .normal
  else if instructionCount ≤ 50 then .cold
  else .never

/-- The record that `analyze_function_optimization` fills. -/
def functionOptInfo (func : FuncDecl) : FunctionOptInfo :=
  let instructionCount := estimateBody func.body
  let callCount := countBodyFunctionCalls func.body
  let isLeaf := callCount == 0
  let isRecursive := isRecursiveFunction func
  let hint := inlineHintFor isRecursive isLeaf instructionCount
  { inlineHint :=
      if func.params.length > 4 && (hint == .normal || hint == .hot || hint == .always) then
        hint.pred
      else hint
    instructionCount := instructionCount
    callCount := callCount
    isRecursive := isRecursive
    isLeaf := isLeaf
    parameterCount := func.params.length }

/-- What `analyze_stmt_optimization` writes to the hints of a statement. -/
def optimizationHints : ASTStmt → OptimizationHints
  | .ifStmt _ _ _ => { branchProbability := 70, canSpeculate := true }
  | .whileStmt _ _ | .forStmt _ _ _ => { isHotPath := true }
  | .funcDecl _ | .print _ => {}
  | .varDecl _ _ _ _ _ | .varAssign _ _ _ => { isPure := true, canSpeculate := true }
  | .return _ _ | .break | .continue => { isColdPath := true }
  | _ => { isPure := true }

/-- `OptimizationCtx`: the records that have been attached to functions and to statements, in the
order in which they were taken from the arrays. -/
structure OptimizationCtx where
  functionInfo : List (FuncDecl × FunctionOptInfo)
  stmtHints : List (ASTStmt × OptimizationHints)

namespace OptimizationCtx

/-- The context before the first statement. -/
def empty : OptimizationCtx := ⟨[], []⟩

/-- `analyze_function_optimization`. -/
def analyzeFunction (ctx : OptimizationCtx) (func : FuncDecl) : OptimizationCtx :=
  if ctx.functionInfo.length ≥ 64 then ctx
  else { ctx with functionInfo := ctx.functionInfo ++ [(func, functionOptInfo func)] }

/-- The next record of hints goes to a statement. -/
def addHints (ctx : OptimizationCtx) (stmt : ASTStmt) : OptimizationCtx :=
  { ctx with stmtHints := ctx.stmtHints ++ [(stmt, optimizationHints stmt)] }

end OptimizationCtx

mutual

/-- `analyze_stmt_optimization`. -/
def analyzeStmtOptimization (ctx : OptimizationCtx) : ASTStmt → OptimizationCtx
  | .ifStmt condition thenBranch elseBranch =>
      if ctx.stmtHints.length ≥ 1024 then ctx
      else
        analyzeBodyOptimization
          (analyzeBodyOptimization (ctx.addHints (.ifStmt condition thenBranch elseBranch))
            thenBranch)
          elseBranch
  | .whileStmt condition body =>
      if ctx.stmtHints.length ≥ 1024 then ctx
      else analyzeBodyOptimization (ctx.addHints (.whileStmt condition body)) body
  | .forStmt name rangeExpr body =>
      if ctx.stmtHints.length ≥ 1024 then ctx
      else analyzeBodyOptimization (ctx.addHints (.forStmt name rangeExpr body)) body
  | .funcDecl ⟨name, params, returnType, returnTypeDesc, body⟩ =>
      if ctx.stmtHints.length ≥ 1024 then ctx
      else
        analyzeBodyOptimization
          ((ctx.addHints (.funcDecl ⟨name, params, returnType, returnTypeDesc, body⟩)).analyzeFunction
            ⟨name, params, returnType, returnTypeDesc, body⟩)
          body
  | s => if ctx.stmtHints.length ≥ 1024 then ctx else ctx.addHints s

def analyzeBodyOptimization (ctx : OptimizationCtx) : Option (List ASTStmt) → OptimizationCtx
  | none => ctx
  | some stmts => analyzeStmtsOptimization ctx stmts

def analyzeStmtsOptimization (ctx : OptimizationCtx) : List ASTStmt → OptimizationCtx
  | [] => ctx
  | s :: stmts => analyzeStmtsOptimization (analyzeStmtOptimization ctx s) stmts

end

/-- `optimization_analyze`. -/
def optimizationAnalyze (program : ASTStmtList) : OptimizationCtx :=
  analyzeStmtsOptimization .empty program

/-! ### The statements that are analysed -/

mutual

/-- A statement, and those of its blocks, in the order of the walk. -/
def walkOfStmt : ASTStmt → List ASTStmt
  | .ifStmt condition thenBranch elseBranch =>
      .ifStmt condition thenBranch elseBranch :: (walkOfBody thenBranch ++ walkOfBody elseBranch)
  | .whileStmt condition body => .whileStmt condition body :: walkOfBody body
  | .forStmt name rangeExpr body => .forStmt name rangeExpr body :: walkOfBody body
  | .funcDecl ⟨name, params, returnType, returnTypeDesc, body⟩ =>
      .funcDecl ⟨name, params, returnType, returnTypeDesc, body⟩ :: walkOfBody body
  | s => [s]

def walkOfBody : Option (List ASTStmt) → List ASTStmt
  | none => []
  | some stmts => walkOfStmts stmts

def walkOfStmts : List ASTStmt → List ASTStmt
  | [] => []
  | s :: stmts => walkOfStmt s ++ walkOfStmts stmts

end

/-- The function that a statement declares. -/
def ASTStmt.declared : ASTStmt → List FuncDecl
  | .funcDecl decl => [decl]
  | _ => []

/-- The statements that get hints. -/
def analysedStmts (program : ASTStmtList) : List ASTStmt := (walkOfStmts program).take 1024

/-- The functions that get a record. -/
def analysedFunctions (program : ASTStmtList) : List FuncDecl :=
  ((analysedStmts program).flatMap ASTStmt.declared).take 64

namespace OptimizationCtx

/-- One step of the walk. -/
def visit (ctx : OptimizationCtx) (s : ASTStmt) : OptimizationCtx :=
  if ctx.stmtHints.length ≥ 1024 then ctx
  else s.declared.foldl analyzeFunction (ctx.addHints s)

theorem foldl_visit_full {ctx : OptimizationCtx} (h : ctx.stmtHints.length ≥ 1024)
    (stmts : List ASTStmt) : stmts.foldl visit ctx = ctx := by
  induction stmts with
  | nil => rfl
  | cons s stmts ih => rw [List.foldl_cons, visit, if_pos h, ih]

/-- A statement with blocks: nothing is done in a full context, and else its own step comes
first. -/
theorem visit_then (ctx : OptimizationCtx) (s : ASTStmt) (stmts : List ASTStmt) :
    (s :: stmts).foldl visit ctx =
      if ctx.stmtHints.length ≥ 1024 then ctx
      else stmts.foldl visit (s.declared.foldl analyzeFunction (ctx.addHints s)) := by
  by_cases hfull : ctx.stmtHints.length ≥ 1024
  · rw [foldl_visit_full hfull, if_pos hfull]
  · rw [List.foldl_cons, visit, if_neg hfull, if_neg hfull]

end OptimizationCtx

open OptimizationCtx in
mutual

/-- The analysis is a walk, step by step. -/
theorem analyzeStmt_eq_walk (ctx : OptimizationCtx) :
    ∀ s : ASTStmt, analyzeStmtOptimization ctx s = (walkOfStmt s).foldl visit ctx
  | .ifStmt condition thenBranch elseBranch => by
      rw [analyzeStmtOptimization, walkOfStmt, visit_then, List.foldl_append,
        analyzeBody_eq_walk _ thenBranch, analyzeBody_eq_walk _ elseBranch]
      rfl
  | .whileStmt condition body => by
      rw [analyzeStmtOptimization, walkOfStmt, visit_then, analyzeBody_eq_walk _ body]
      rfl
  | .forStmt name rangeExpr body => by
      rw [analyzeStmtOptimization, walkOfStmt, visit_then, analyzeBody_eq_walk _ body]
      rfl
  | .funcDecl ⟨name, params, returnType, returnTypeDesc, body⟩ => by
      rw [analyzeStmtOptimization, walkOfStmt, visit_then, analyzeBody_eq_walk _ body]
      rfl
  | .varDecl .. | .varAssign .. | .indexAssign .. | .memberAssign .. | .print _ | .expr _
  | .forIn .. | .break | .continue | .structDecl .. | .classDecl .. | .return .. | .importStmt ..
  | .exportStmt .. => rfl

theorem analyzeBody_eq_walk (ctx : OptimizationCtx) :
    ∀ body : Option (List ASTStmt),
      analyzeBodyOptimization ctx body = (walkOfBody body).foldl visit ctx
  | none => rfl
  | some stmts => analyzeStmts_eq_walk ctx stmts

theorem analyzeStmts_eq_walk (ctx : OptimizationCtx) :
    ∀ stmts : List ASTStmt,
      analyzeStmtsOptimization ctx stmts = (walkOfStmts stmts).foldl visit ctx
  | [] => rfl
  | s :: stmts => by
      rw [analyzeStmtsOptimization, walkOfStmts, List.foldl_append, analyzeStmt_eq_walk ctx s,
        analyzeStmts_eq_walk _ stmts]

end

namespace OptimizationCtx

theorem analyzeFunctions_eq (ctx : OptimizationCtx) (funcs : List FuncDecl) :
    funcs.foldl analyzeFunction ctx =
      { ctx with
        functionInfo := ctx.functionInfo ++
          (funcs.take (64 - ctx.functionInfo.length)).map fun f => (f, functionOptInfo f) } := by
  induction funcs generalizing ctx with
  | nil => simp
  | cons f funcs ih =>
      rw [List.foldl_cons, ih, analyzeFunction]
      by_cases hfull : ctx.functionInfo.length ≥ 64
      · simp only [if_pos hfull, Nat.sub_eq_zero_of_le hfull, List.take_zero, List.map_nil]
      · obtain ⟨room, hroom⟩ : ∃ room, 64 - ctx.functionInfo.length = room + 1 :=
          ⟨64 - ctx.functionInfo.length - 1, by omega⟩
        have hnext : 64 - (ctx.functionInfo.length + 1) = room := by omega
        simp only [if_neg hfull, List.length_append, List.length_cons, List.length_nil, zero_add,
          hnext, hroom, List.take_succ_cons, List.map_cons, List.append_assoc,
          List.cons_append, List.nil_append]

/-- The walk fills both lists as long as there is room. -/
theorem walk_eq (ctx : OptimizationCtx) (stmts : List ASTStmt) :
    stmts.foldl visit ctx =
      { functionInfo := ctx.functionInfo ++
          (((stmts.take (1024 - ctx.stmtHints.length)).flatMap ASTStmt.declared).take
            (64 - ctx.functionInfo.length)).map fun f => (f, functionOptInfo f)
        stmtHints := ctx.stmtHints ++
          (stmts.take (1024 - ctx.stmtHints.length)).map fun s => (s, optimizationHints s) } := by
  induction stmts generalizing ctx with
  | nil => simp
  | cons s stmts ih =>
      rw [visit_then]
      by_cases hfull : ctx.stmtHints.length ≥ 1024
      · rw [if_pos hfull, Nat.sub_eq_zero_of_le hfull]
        simp
      · obtain ⟨room, hroom⟩ : ∃ room, 1024 - ctx.stmtHints.length = room + 1 :=
          ⟨1024 - ctx.stmtHints.length - 1, by omega⟩
        have hnext : 1024 - (ctx.stmtHints.length + 1) = room := by omega
        rw [if_neg hfull, ih, analyzeFunctions_eq]
        simp only [addHints, List.length_append, List.length_cons, List.length_nil, zero_add,
          hnext, hroom, List.take_succ_cons, List.flatMap_cons, List.map_cons, List.append_assoc,
          List.cons_append, List.nil_append, List.length_map, List.length_take]
        -- what the functions of the first statement leave of the room for functions
        have hleft : 64 - (ctx.functionInfo.length +
            min (64 - ctx.functionInfo.length) s.declared.length) =
              64 - ctx.functionInfo.length - s.declared.length := by
          omega
        rw [List.take_append, List.map_append, hleft]

end OptimizationCtx

/-- What the analysis attaches to statements and functions. -/
theorem optimizationAnalyze_eq (program : ASTStmtList) :
    optimizationAnalyze program =
      { functionInfo := (analysedFunctions program).map fun f => (f, functionOptInfo f)
        stmtHints := (analysedStmts program).map fun s => (s, optimizationHints s) } := by
  rw [optimizationAnalyze, analyzeStmts_eq_walk, OptimizationCtx.walk_eq]
  rfl

/-! ### Calls and prints -/

namespace ASTNode

/-- A call, a method call or a `print`. -/
def isCallOrPrint : ASTNode → Bool
  | .expr (.call _ _) | .expr (.methodCall _ _ _ _) | .stmt (.print _) => true
  | _ => false

/-- The children of a node that the call counter goes on to. -/
def counted : ASTNode → List ASTNode
  | .expr e => e.entered.map .expr
  | .stmt (.expr e) => [.expr e]
  | .stmt (.ifStmt _ thenBranch elseBranch) => blockNodes thenBranch ++ blockNodes elseBranch
  | .stmt (.whileStmt _ body) | .stmt (.forStmt _ _ body) => blockNodes body
  | _ => []

theorem counted_subset (node : ASTNode) : node.counted ⊆ node.children := by
  intro c hc
  cases node with
  | expr e => exact List.map_subset _ (entered_subset e) hc
  | stmt s =>
      cases s with
      | expr e => exact hc
      | ifStmt | whileStmt | forStmt => exact List.mem_cons_of_mem _ hc
      | _ => cases hc

/-- The counter at a node. -/
def countCalls : ASTNode → ℕ
  | .expr e => countExprFunctionCalls e
  | .stmt s => countFunctionCalls s

/-- What a node adds to the count by itself. -/
def callWeight (node : ASTNode) : ℕ := if node.isCallOrPrint then 1 else 0

theorem countExprs_eq (es : List ASTExpr) :
    countExprsFunctionCalls es = ((es.map .expr).map countCalls).sum := by
  induction es with
  | nil => rfl
  | cons e es ih => rw [countExprsFunctionCalls, ih]; rfl

theorem countEntries_eq (entries : List (ASTExpr × ASTExpr)) :
    countEntriesFunctionCalls entries =
      (((ASTExpr.dict entries).children.map .expr).map countCalls).sum := by
  induction entries with
  | nil => rfl
  | cons entry entries ih =>
      rw [countEntriesFunctionCalls, ih]
      simp [ASTExpr.children, countCalls, Nat.add_assoc]

theorem countStmts_eq (stmts : List ASTStmt) :
    countStmtsFunctionCalls stmts = ((stmts.map .stmt).map countCalls).sum := by
  induction stmts with
  | nil => rfl
  | cons s stmts ih => rw [countStmtsFunctionCalls, ih]; rfl

theorem countBody_eq (body : Option (List ASTStmt)) :
    countBodyFunctionCalls body = ((blockNodes body).map countCalls).sum := by
  cases body with
  | none => rfl
  | some stmts => exact countStmts_eq stmts

/-- The counter adds up a node and the children it goes on to. -/
theorem countCalls_eq (node : ASTNode) :
    node.countCalls = node.callWeight + (node.counted.map countCalls).sum := by
  cases node with
  | expr e =>
      cases e with
      | call name args => rw [countCalls, countExprFunctionCalls, countExprs_eq]; rfl
      | methodCall target name args isOptionalChain =>
          rw [countCalls, countExprFunctionCalls, countExprs_eq, Nat.add_assoc]
          rfl
      | array items =>
          rw [countCalls, countExprFunctionCalls, countExprs_eq]
          exact (zero_add _).symm
      | dict entries =>
          rw [countCalls, countExprFunctionCalls, countEntries_eq]; exact (zero_add _).symm
      | binary op left right =>
          simp [countCalls, countExprFunctionCalls, callWeight, isCallOrPrint, counted,
            ASTExpr.entered, ASTExpr.children]
      | index target i =>
          simp [countCalls, countExprFunctionCalls, callWeight, isCallOrPrint, counted,
            ASTExpr.entered, ASTExpr.children]
      | unary op operand =>
          simp [countCalls, countExprFunctionCalls, callWeight, isCallOrPrint, counted,
            ASTExpr.entered, ASTExpr.children]
      | member target =>
          simp [countCalls, countExprFunctionCalls, callWeight, isCallOrPrint, counted,
            ASTExpr.entered, ASTExpr.children]
      | _ => rfl
  | stmt s =>
      cases s with
      | ifStmt condition thenBranch elseBranch =>
          simp [countCalls, countFunctionCalls, countBody_eq, callWeight, isCallOrPrint, counted]
      | whileStmt condition body =>
          simp [countCalls, countFunctionCalls, countBody_eq, callWeight, isCallOrPrint, counted]
      | forStmt name rangeExpr body =>
          simp [countCalls, countFunctionCalls, countBody_eq, callWeight, isCallOrPrint, counted]
      | expr e => simp [countCalls, countFunctionCalls, callWeight, isCallOrPrint, counted]
      | _ => rfl

/-- A call, a method call or a `print` occurs in the node. -/
def ContainsCall (node : ASTNode) : Prop :=
  ∃ inside, Occurs inside node ∧ inside.isCallOrPrint = true

/-- A call, a method call or a `print` occurs in a place that the call counter visits: the
expression of an expression statement, in blocks of conditionals, `while` loops and `for` loops,
outside array, struct and class literals. -/
def ContainsCountedCall (node : ASTNode) : Prop :=
  ∃ inside, Tree.Reaches counted node inside ∧ inside.isCallOrPrint = true

theorem ContainsCountedCall.containsCall {node : ASTNode} (h : node.ContainsCountedCall) :
    node.ContainsCall := by
  obtain ⟨inside, hreach, hcall⟩ := h
  exact ⟨inside, hreach.mono fun node => counted_subset node, hcall⟩

theorem countCalls_eq_zero_iff (node : ASTNode) :
    node.countCalls = 0 ↔ ¬node.ContainsCountedCall := by
  have hrank : ∀ node : ASTNode, ∀ child ∈ node.counted, child.rank < node.rank :=
    fun node child h => node.rank_child child (node.counted_subset h)
  rw [Tree.count_eq_zero_iff hrank countCalls_eq]
  constructor
  · rintro hzero ⟨inside, hreach, hcall⟩
    have := hzero inside hreach
    rw [callWeight, if_pos hcall] at this
    exact absurd this Nat.one_ne_zero
  · intro hnone inside hreach
    exact if_neg fun hcall => hnone ⟨inside, hreach, hcall⟩

end ASTNode

namespace ASTFuncDecl

/-- A call, a method call or a `print` occurs in the body. -/
def ContainsCall (func : FuncDecl) : Prop :=
  ∃ s ∈ func.body.getD [], (ASTNode.stmt s).ContainsCall

/-- A call, a method call or a `print` occurs in the body where the call counter sees it. -/
def ContainsCountedCall (func : FuncDecl) : Prop :=
  ∃ s ∈ func.body.getD [], (ASTNode.stmt s).ContainsCountedCall

theorem isLeaf_iff (func : FuncDecl) :
    (functionOptInfo func).isLeaf = true ↔ ¬func.ContainsCountedCall := by
  have hcount : (functionOptInfo func).isLeaf = (countBodyFunctionCalls func.body == 0) := rfl
  rw [hcount, beq_iff_eq, ASTNode.countBody_eq, List.sum_eq_zero_iff_forall_eq_nat]
  constructor
  · rintro hzero ⟨s, hs, hcall⟩
    have hmem : ASTNode.countCalls (.stmt s) ∈ (blockNodes func.body).map ASTNode.countCalls :=
      List.mem_map_of_mem (List.mem_map_of_mem hs)
    exact (ASTNode.countCalls_eq_zero_iff _).mp (hzero _ hmem) hcall
  · intro hnone n hn
    obtain ⟨node, hnode, rfl⟩ := List.mem_map.mp hn
    obtain ⟨s, hs, rfl⟩ := List.mem_map.mp hnode
    exact (ASTNode.countCalls_eq_zero_iff _).mpr fun hcall => hnone ⟨s, hs, hcall⟩

end ASTFuncDecl

/-- A statement that is neither a `print`, a conditional, a `while` or `for` loop, a declaration
of a function, a `return`, a `break` nor a `continue`. -/
def ASTStmt.IsPlain : ASTStmt → Prop
  | .print _ | .ifStmt _ _ _ | .whileStmt _ _ | .forStmt _ _ _ | .funcDecl _ | .return _ _
  | .break | .continue => False
  | _ => True

theorem isPure_iff (s : ASTStmt) : (optimizationHints s).isPure = true ↔ s.IsPlain := by
  cases s with
  | print | ifStmt | whileStmt | forStmt | funcDecl | «return» | «break» | «continue» =>
      exact iff_of_false Bool.false_ne_true id
  | _ => exact iff_of_true rfl trivial

/-- No function that is taken for a leaf contains a call, a method call or a `print`, and no
statement that is taken to be pure contains one. -/
def OptimizationCtx.Sound (ctx : OptimizationCtx) : Prop :=
  (∀ f ∈ ctx.functionInfo, f.2.isLeaf = true → ¬f.1.ContainsCall) ∧
    ∀ s ∈ ctx.stmtHints, s.2.isPure = true → ¬(ASTNode.stmt s.1).ContainsCall

/-- **The facts for the optimiser are sound** if and only if every analysed function with a call
or a `print` in its body has one that the counter sees, and the analysed statements without
control flow have none. -/
theorem optimization_facts_sound_iff (program : ASTStmtList) :
    (optimizationAnalyze program).Sound ↔
      (∀ f ∈ analysedFunctions program, f.ContainsCall → f.ContainsCountedCall) ∧
        ∀ s ∈ analysedStmts program, s.IsPlain → ¬(ASTNode.stmt s).ContainsCall := by
  rw [optimizationAnalyze_eq, OptimizationCtx.Sound]
  refine and_congr ?_ ?_
  · rw [List.forall_mem_map]
    refine forall₂_congr fun f _ => ?_
    rw [ASTFuncDecl.isLeaf_iff]
    exact not_imp_not
  · rw [List.forall_mem_map]
    refine forall₂_congr fun s _ => ?_
    rw [isPure_iff]

/-- A function whose only statement returns a call of another one, and a statement that assigns
the result of a call: `def g() -> Int { return f() }` and `x = f()`. -/
def returnAndAssignment : ASTStmtList :=
  [.funcDecl ⟨['g'], [], .typeInt, none, some [.return (.call ['f'] []) none]⟩,
    .varAssign ['x'] (.call ['f'] []) none]

/-- **The function is taken for a leaf, and the assignment is taken to be pure.** -/
theorem return_and_assignment_missed :
    (∃ f ∈ (optimizationAnalyze returnAndAssignment).functionInfo,
      f.2.isLeaf = true ∧ f.1.ContainsCall) ∧
    ∃ s ∈ (optimizationAnalyze returnAndAssignment).stmtHints,
      s.2.isPure = true ∧ (ASTNode.stmt s.1).ContainsCall := by
  rw [optimizationAnalyze_eq]
  refine ⟨⟨_, .head _, rfl, _, .head _, .expr (.call ['f'] []), ?_, rfl⟩,
    ⟨_, .tail _ (.tail _ (.head _)), rfl, .expr (.call ['f'] []), ?_, rfl⟩⟩
  all_goals exact Tree.Reaches.head_iff.mpr (.inr ⟨_, List.mem_singleton.mpr rfl, .refl⟩)

end BreadLang
