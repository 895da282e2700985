import BreadLang.Compiler.Occurrences

/-!
# Recursive calls

`is_recursive_function` looks through the body of a function for a call with the name of the
function.  The search leaves out the elements of literals with a type, and it does not look at
assignments to elements and members, at `for`-`in` loops, or at the declarations inside the body.
-/

namespace BreadLang

mutual

/-- `check_expr_for_recursive_call`. -/
def checkExprForRecursiveCall (funcName : Ident) : ASTExpr → Bool
  | .call name args => name == funcName || checkExprsForRecursiveCall funcName args
  | .binary _ left right =>
      checkExprForRecursiveCall funcName left || checkExprForRecursiveCall funcName right
  | .unary _ operand => checkExprForRecursiveCall funcName operand
  | .index target i =>
      checkExprForRecursiveCall funcName target || checkExprForRecursiveCall funcName i
  | .member target _ _ => checkExprForRecursiveCall funcName target
  | .methodCall target _ args _ =>
      checkExprForRecursiveCall funcName target || checkExprsForRecursiveCall funcName args
  | .array items => checkExprsForRecursiveCall funcName items
  | .dict entries => checkEntriesForRecursiveCall funcName entries
  | _ => false

/-- The loop over the arguments of a call or the items of an array. -/
def checkExprsForRecursiveCall (funcName : Ident) : List ASTExpr → Bool
  | [] => false
  | e :: es => checkExprForRecursiveCall funcName e || checkExprsForRecursiveCall funcName es

/-- The loop over the entries of a dictionary. -/
def checkEntriesForRecursiveCall (funcName : Ident) : List (ASTExpr × ASTExpr) → Bool
  | [] => false
  | (key, value) :: entries =>
      checkExprForRecursiveCall funcName key || checkExprForRecursiveCall funcName value ||
        checkEntriesForRecursiveCall funcName entries

end

mutual

/-- `check_stmt_for_recursive_call`. -/
def checkStmtForRecursiveCall (funcName : Ident) : ASTStmt → Bool
  | .varDecl _ _ _ init _ => checkExprForRecursiveCall funcName init
  | .varAssign _ value _ => checkExprForRecursiveCall funcName value
  | .print e => checkExprForRecursiveCall funcName e
  | .expr e => checkExprForRecursiveCall funcName e
  | .ifStmt condition thenBranch elseBranch =>
      checkExprForRecursiveCall funcName condition ||
        checkBodyForRecursiveCall funcName thenBranch ||
        checkBodyForRecursiveCall funcName elseBranch
  | .whileStmt condition body =>
      checkExprForRecursiveCall funcName condition || checkBodyForRecursiveCall funcName body
  | .forStmt _ rangeExpr body =>
      checkExprForRecursiveCall funcName rangeExpr || checkBodyForRecursiveCall funcName body
  | .return e _ => checkExprForRecursiveCall funcName e
  | _ => false

/-- The body of a loop, or a branch of a conditional, that may be missing. -/
def checkBodyForRecursiveCall (funcName : Ident) : Option (List ASTStmt) → Bool
  | none => false
  | some stmts => checkStmtsForRecursiveCall funcName stmts

/-- The loop over the statements of a block. -/
def checkStmtsForRecursiveCall (funcName : Ident) : List ASTStmt → Bool
  | [] => false
  | s :: stmts => checkStmtForRecursiveCall funcName s || checkStmtsForRecursiveCall funcName stmts

end

/-- `is_recursive_function`. -/
def isRecursiveFunction (func : FuncDecl) : Bool := checkBodyForRecursiveCall func.name func.body

/-- The children of an expression that the traversals of the optimiser go on to: those of an
array, struct or class literal are left out. -/
def ASTExpr.entered : ASTExpr → List ASTExpr
  | .arrayLiteral _ | .structLiteral _ _ | .classLiteral _ _ => []
  | e => e.children

namespace ASTNode

/-- The children of a node that the search for a recursive call goes on to. -/
def searched : ASTNode → List ASTNode
  | .expr e => e.entered.map .expr
  | .stmt (.indexAssign _ _ _ _) | .stmt (.memberAssign _ _ _ _) | .stmt (.forIn _ _ _)
  | .stmt (.funcDecl _) | .stmt (.classDecl _ _ _ _ _) => []
  | .stmt s => s.children

/-- A call of the function. -/
def isCallOf (funcName : Ident) : ASTNode → Bool
  | .expr (.call name _) => name == funcName
  | _ => false

theorem entered_subset (e : ASTExpr) : e.entered ⊆ e.children := by
  intro c hc
  cases e with
  | arrayLiteral | structLiteral | classLiteral => cases hc
  | _ => exact hc

theorem searched_subset (node : ASTNode) : node.searched ⊆ node.children := by
  intro c hc
  cases node with
  | expr e => exact List.map_subset _ (entered_subset e) hc
  | stmt s =>
      cases s with
      | indexAssign | memberAssign | forIn | funcDecl | classDecl => cases hc
      | _ => exact hc

/-- The search at a node. -/
def checkForRecursiveCall (funcName : Ident) : ASTNode → Bool
  | .expr e => checkExprForRecursiveCall funcName e
  | .stmt s => checkStmtForRecursiveCall funcName s

end ASTNode

section Search

variable {funcName : Ident}

theorem checkExprs_eq (es : List ASTExpr) :
    checkExprsForRecursiveCall funcName es = es.any (checkExprForRecursiveCall funcName) := by
  induction es with
  | nil => rfl
  | cons e es ih => rw [checkExprsForRecursiveCall, ih, List.any_cons]

theorem checkEntries_eq (entries : List (ASTExpr × ASTExpr)) :
    checkEntriesForRecursiveCall funcName entries =
      (ASTExpr.dict entries).children.any (checkExprForRecursiveCall funcName) := by
  induction entries with
  | nil => rfl
  | cons entry entries ih =>
      rw [checkEntriesForRecursiveCall, ih]
      simp [ASTExpr.children, Bool.or_assoc]

theorem checkStmts_eq (stmts : List ASTStmt) :
    checkStmtsForRecursiveCall funcName stmts = stmts.any (checkStmtForRecursiveCall funcName) := by
  induction stmts with
  | nil => rfl
  | cons s stmts ih => rw [checkStmtsForRecursiveCall, ih, List.any_cons]

theorem checkBody_eq (body : Option (List ASTStmt)) :
    checkBodyForRecursiveCall funcName body =
      (blockNodes body).any (ASTNode.checkForRecursiveCall funcName) := by
  rw [blockNodes, List.any_map]
  cases body with
  | none => rfl
  | some stmts => exact checkStmts_eq stmts

theorem checkExpr_eq (e : ASTExpr) :
    checkExprForRecursiveCall funcName e =
      (ASTNode.isCallOf funcName (.expr e) ||
        e.entered.any (checkExprForRecursiveCall funcName)) := by
  cases e with
  | call name args => rw [checkExprForRecursiveCall, checkExprs_eq]; rfl
  | methodCall target name args => rw [checkExprForRecursiveCall, checkExprs_eq]; rfl
  | array items => rw [checkExprForRecursiveCall, checkExprs_eq]; rfl
  | dict entries => rw [checkExprForRecursiveCall, checkEntries_eq]; rfl
  | binary op left right =>
      simp [checkExprForRecursiveCall, ASTNode.isCallOf, ASTExpr.entered, ASTExpr.children]
  | index target i =>
      simp [checkExprForRecursiveCall, ASTNode.isCallOf, ASTExpr.entered, ASTExpr.children]
  | unary op operand =>
      simp [checkExprForRecursiveCall, ASTNode.isCallOf, ASTExpr.entered, ASTExpr.children]
  | member target =>
      simp [checkExprForRecursiveCall, ASTNode.isCallOf, ASTExpr.entered, ASTExpr.children]
  | _ => rfl

/-- The traversal looks at a node, and then at the children it goes on to. -/
theorem checkForRecursiveCall_eq (node : ASTNode) :
    node.checkForRecursiveCall funcName =
      (node.isCallOf funcName || node.searched.any (ASTNode.checkForRecursiveCall funcName)) := by
  cases node with
  | expr e =>
      rw [ASTNode.checkForRecursiveCall, checkExpr_eq, ASTNode.searched, List.any_map]
      rfl
  | stmt s =>
      cases s with
      | ifStmt condition thenBranch elseBranch =>
          simp [ASTNode.checkForRecursiveCall, checkStmtForRecursiveCall, checkBody_eq,
            ASTNode.isCallOf, ASTNode.searched, ASTStmt.children, Bool.or_assoc]
      | whileStmt condition body =>
          simp [ASTNode.checkForRecursiveCall, checkStmtForRecursiveCall, checkBody_eq,
            ASTNode.isCallOf, ASTNode.searched, ASTStmt.children]
      | forStmt name rangeExpr body =>
          simp [ASTNode.checkForRecursiveCall, checkStmtForRecursiveCall, checkBody_eq,
            ASTNode.isCallOf, ASTNode.searched, ASTStmt.children]
      | varDecl name type typeDesc init isConst => exact (Bool.or_false _).symm
      | varAssign name value op => exact (Bool.or_false _).symm
      | print e => exact (Bool.or_false _).symm
      | expr e => exact (Bool.or_false _).symm
      | «return» e tag => exact (Bool.or_false _).symm
      | _ => rfl

end Search

namespace ASTFuncDecl

/-- A call of the function occurs in its body. -/
def CallsItself (func : FuncDecl) : Prop :=
  ∃ s ∈ func.body.getD [], ∃ args, ASTNode.Occurs (.expr (.call func.name args)) (.stmt s)

/-- A call of the function occurs in its body, and the way to it leads through no array, struct
or class literal, assignment to an element or a member, `for`-`in` loop or declaration of a
function or a class. -/
def PlainlyCallsItself (func : FuncDecl) : Prop :=
  ∃ s ∈ func.body.getD [], ∃ args,
    Tree.Reaches ASTNode.searched (.stmt s) (.expr (.call func.name args))

theorem PlainlyCallsItself.callsItself {func : FuncDecl} (h : func.PlainlyCallsItself) :
    func.CallsItself := by
  obtain ⟨s, hs, args, hcall⟩ := h
  exact ⟨s, hs, args, hcall.mono fun node => ASTNode.searched_subset node⟩

/-- What the search finds. -/
theorem isRecursiveFunction_iff (func : FuncDecl) :
    isRecursiveFunction func = true ↔ func.PlainlyCallsItself := by
  have hrank : ∀ node : ASTNode, ∀ child ∈ node.searched, child.rank < node.rank :=
    fun node child h => node.rank_child child (node.searched_subset h)
  rw [isRecursiveFunction, checkBody_eq, List.any_eq_true]
  constructor
  · rintro ⟨node, hnode, hcheck⟩
    obtain ⟨s, hs, rfl⟩ := List.mem_map.mp hnode
    obtain ⟨found, hreach, hfound⟩ :=
      (Tree.search_iff hrank checkForRecursiveCall_eq _).mp hcheck
    -- only a call is looked for
    cases found with
    | stmt => cases hfound
    | expr e =>
        cases e with
        | call name args =>
            obtain rfl : name = func.name := beq_iff_eq.mp hfound
            exact ⟨s, hs, args, hreach⟩
        | _ => cases hfound
  · rintro ⟨s, hs, args, hreach⟩
    refine ⟨.stmt s, List.mem_map_of_mem hs, ?_⟩
    exact (Tree.search_iff hrank checkForRecursiveCall_eq _).mpr
      ⟨_, hreach, beq_iff_eq.mpr rfl⟩

/-- **A function that calls itself is found to be recursive** if and only if one of the calls is
in plain sight. -/
theorem recursion_found_iff (func : FuncDecl) :
    (isRecursiveFunction func = true ↔ func.CallsItself) ↔
      (func.CallsItself → func.PlainlyCallsItself) := by
  rw [isRecursiveFunction_iff]
  exact ⟨fun h => h.mpr, fun h => ⟨PlainlyCallsItself.callsItself, h⟩⟩

/-- A function that returns a list with a call of itself: `return [f()]`. -/
def returnsListOfItself : FuncDecl where
  name := ['f']
  params := []
  returnType := .typeArray
  returnTypeDesc := none
  body := some [.return (.arrayLiteral [.call ['f'] []]) none]

/-- **A call in an array literal is not found.** -/
theorem recursion_in_literal_missed :
    returnsListOfItself.CallsItself ∧ isRecursiveFunction returnsListOfItself = false := by
  refine ⟨⟨_, List.mem_singleton.mpr rfl, [], ?_⟩, by decide⟩
  refine Tree.Reaches.head_iff.mpr (.inr ⟨.expr (.arrayLiteral [.call ['f'] []]), ?_, ?_⟩)
  · exact List.mem_singleton.mpr rfl
  · exact Tree.Reaches.head_iff.mpr (.inr ⟨_, List.mem_singleton.mpr rfl, .refl⟩)

end ASTFuncDecl

end BreadLang
