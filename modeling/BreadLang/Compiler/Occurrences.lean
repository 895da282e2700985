import BreadLang.Compiler.Ast
import BreadLang.Library.TreeSearch

/-!
# What occurs in a tree

The nodes of a program are its expressions and its statements.  The children of a node are the
expressions and the statements it is made of, those of the functions and the classes that are
declared in it included.  What occurs in a node is what a descent through the children reaches.
-/

namespace BreadLang

/-- `ASTExpr*` or `ASTStmt*`. -/
inductive ASTNode where
  | expr (expr : ASTExpr)
  | stmt (stmt : ASTStmt)

/-- The expressions that an expression is made of. -/
def ASTExpr.children : ASTExpr → List ASTExpr
  | .binary _ left right => [left, right]
  | .unary _ operand => [operand]
  | .call _ args => args
  | .array items => items
  | .dict entries => entries.flatMap fun entry => [entry.1, entry.2]
  | .index target i => [target, i]
  | .member target _ _ => [target]
  | .methodCall target _ args _ => target :: args
  | .arrayLiteral elements => elements
  | .structLiteral _ fields | .classLiteral _ fields => fields.map Prod.snd
  | _ => []

/-- The statements of a block, or none where there is no block. -/
def blockNodes (body : Option (List ASTStmt)) : List ASTNode :=
  (body.getD []).map .stmt

/-- The default values of the parameters, and the body. -/
def ASTFuncDecl.nodes (decl : FuncDecl) : List ASTNode :=
  (decl.params.map fun param => .expr param.default) ++ blockNodes decl.body

/-- The expressions and the statements that a statement is made of. -/
def ASTStmt.children : ASTStmt → List ASTNode
  | .varDecl _ _ _ init _ => [.expr init]
  | .varAssign _ value _ => [.expr value]
  | .indexAssign target index value _ => [.expr target, .expr index, .expr value]
  | .memberAssign target _ value _ => [.expr target, .expr value]
  | .print e | .expr e | .return e _ => [.expr e]
  | .ifStmt condition thenBranch elseBranch =>
      .expr condition :: (blockNodes thenBranch ++ blockNodes elseBranch)
  | .whileStmt condition body => .expr condition :: blockNodes body
  | .forStmt _ range body | .forIn _ range body => .expr range :: blockNodes body
  | .funcDecl decl => decl.nodes
  | .classDecl _ _ _ methods constructor =>
      (methods ++ constructor.toList).flatMap ASTFuncDecl.nodes
  | .break | .continue | .structDecl _ _ | .importStmt _ _ _ _ | .exportStmt _ _ => []

namespace ASTNode

/-- What a node is made of. -/
def children : ASTNode → List ASTNode
  | .expr e => e.children.map .expr
  | .stmt s => s.children

/-- How large a node is. -/
noncomputable def rank : ASTNode → ℕ
  | .expr e => sizeOf e
  | .stmt s => sizeOf s

theorem sizeOf_child {e c : ASTExpr} (h : c ∈ e.children) : sizeOf c < sizeOf e := by
  cases e with
  | binary op left right =>
      obtain rfl | rfl : c = left ∨ c = right := by simpa [ASTExpr.children] using h
      all_goals simp only [ASTExpr.binary.sizeOf_spec]; omega
  | unary op operand =>
      obtain rfl : c = operand := by simpa [ASTExpr.children] using h
      simp only [ASTExpr.unary.sizeOf_spec]; omega
  | call name args =>
      have := List.sizeOf_lt_of_mem (show c ∈ args from h)
      simp only [ASTExpr.call.sizeOf_spec]; omega
  | array items =>
      have := List.sizeOf_lt_of_mem (show c ∈ items from h)
      simp only [ASTExpr.array.sizeOf_spec]; omega
  | dict entries =>
      obtain ⟨⟨key, value⟩, hmem, hc⟩ := List.mem_flatMap.mp h
      have := List.sizeOf_lt_of_mem hmem
      obtain rfl | rfl : c = key ∨ c = value := by simpa using hc
      all_goals
        simp only [Prod.mk.sizeOf_spec] at this
        simp only [ASTExpr.dict.sizeOf_spec]; omega
  | index target index =>
      obtain rfl | rfl : c = target ∨ c = index := by simpa [ASTExpr.children] using h
      all_goals simp only [ASTExpr.index.sizeOf_spec]; omega
  | member target member isOptionalChain =>
      obtain rfl : c = target := by simpa [ASTExpr.children] using h
      simp only [ASTExpr.member.sizeOf_spec]; omega
  | methodCall target name args isOptionalChain =>
      obtain rfl | hmem := List.mem_cons.mp (show c ∈ target :: args from h)
      · simp only [ASTExpr.methodCall.sizeOf_spec]; omega
      · have := List.sizeOf_lt_of_mem hmem
        simp only [ASTExpr.methodCall.sizeOf_spec]; omega
  | arrayLiteral elements =>
      have := List.sizeOf_lt_of_mem (show c ∈ elements from h)
      simp only [ASTExpr.arrayLiteral.sizeOf_spec]; omega
  | structLiteral name fields =>
      obtain ⟨⟨field, value⟩, hmem, rfl⟩ := List.mem_map.mp (show c ∈ fields.map Prod.snd from h)
      have := List.sizeOf_lt_of_mem hmem
      simp only [Prod.mk.sizeOf_spec] at this
      simp only [ASTExpr.structLiteral.sizeOf_spec]; omega
  | classLiteral name fields =>
      obtain ⟨⟨field, value⟩, hmem, rfl⟩ := List.mem_map.mp (show c ∈ fields.map Prod.snd from h)
      have := List.sizeOf_lt_of_mem hmem
      simp only [Prod.mk.sizeOf_spec] at this
      simp only [ASTExpr.classLiteral.sizeOf_spec]; omega
  | _ => cases h

theorem rank_block {body : Option (List ASTStmt)} {node : ASTNode} (h : node ∈ blockNodes body) :
    node.rank < sizeOf body := by
  obtain ⟨s, hmem, rfl⟩ := List.mem_map.mp h
  cases body with
  | none => cases hmem
  | some stmts =>
      have := List.sizeOf_lt_of_mem (show s ∈ stmts from hmem)
      simp only [rank, Option.some.sizeOf_spec]; omega

theorem rank_decl {decl : FuncDecl} {node : ASTNode} (h : node ∈ decl.nodes) :
    node.rank < sizeOf decl := by
  obtain ⟨name, params, returnType, returnTypeDesc, body⟩ := decl
  rw [ASTFuncDecl.mk.sizeOf_spec]
  rcases List.mem_append.mp h with hdefault | hbody
  · obtain ⟨⟨param, type, value⟩, hmem, rfl⟩ := List.mem_map.mp hdefault
    have := List.sizeOf_lt_of_mem hmem
    simp only [ASTParam.mk.sizeOf_spec] at this
    simp only [rank]; omega
  · have : node.rank < sizeOf body := rank_block hbody
    omega

/-- The children of a node are smaller. -/
theorem rank_child (node : ASTNode) : ∀ child ∈ node.children, child.rank < node.rank := by
  intro child h
  cases node with
  | expr e =>
      obtain ⟨c, hc, rfl⟩ := List.mem_map.mp h
      exact sizeOf_child hc
  | stmt s =>
      simp only [children] at h
      cases s with
      | varDecl name type typeDesc init isConst =>
          obtain rfl : child = .expr init := by simpa [ASTStmt.children] using h
          simp only [rank, ASTStmt.varDecl.sizeOf_spec]; omega
      | varAssign name value op =>
          obtain rfl : child = .expr value := by simpa [ASTStmt.children] using h
          simp only [rank, ASTStmt.varAssign.sizeOf_spec]; omega
      | indexAssign target index value op =>
          obtain rfl | rfl | rfl : child = .expr target ∨ child = .expr index ∨
            child = .expr value := by simpa [ASTStmt.children] using h
          all_goals simp only [rank, ASTStmt.indexAssign.sizeOf_spec]; omega
      | memberAssign target member value op =>
          obtain rfl | rfl : child = .expr target ∨ child = .expr value := by
            simpa [ASTStmt.children] using h
          all_goals simp only [rank, ASTStmt.memberAssign.sizeOf_spec]; omega
      | print e =>
          obtain rfl : child = .expr e := by simpa [ASTStmt.children] using h
          simp only [rank, ASTStmt.print.sizeOf_spec]; omega
      | expr e =>
          obtain rfl : child = .expr e := by simpa [ASTStmt.children] using h
          simp only [rank, ASTStmt.expr.sizeOf_spec]; omega
      | «return» e tag =>
          obtain rfl : child = .expr e := by simpa [ASTStmt.children] using h
          simp only [rank, ASTStmt.return.sizeOf_spec]; omega
      | ifStmt condition thenBranch elseBranch =>
          rw [ASTStmt.children, List.mem_cons, List.mem_append] at h
          obtain rfl | h | h := h
          · simp only [rank, ASTStmt.ifStmt.sizeOf_spec]; omega
          all_goals
            have := rank_block h
            simp only [rank, ASTStmt.ifStmt.sizeOf_spec] at this ⊢; omega
      | whileStmt condition body =>
          obtain rfl | h := List.mem_cons.mp h
          · simp only [rank, ASTStmt.whileStmt.sizeOf_spec]; omega
          · have := rank_block h
            simp only [rank, ASTStmt.whileStmt.sizeOf_spec] at this ⊢; omega
      | forStmt name range body =>
          obtain rfl | h := List.mem_cons.mp h
          · simp only [rank, ASTStmt.forStmt.sizeOf_spec]; omega
          · have := rank_block h
            simp only [rank, ASTStmt.forStmt.sizeOf_spec] at this ⊢; omega
      | forIn name iterable body =>
          obtain rfl | h := List.mem_cons.mp h
          · simp only [rank, ASTStmt.forIn.sizeOf_spec]; omega
          · have := rank_block h
            simp only [rank, ASTStmt.forIn.sizeOf_spec] at this ⊢; omega
      | funcDecl decl =>
          have := rank_decl h
          simp only [rank, ASTStmt.funcDecl.sizeOf_spec] at this ⊢; omega
      | classDecl name parentName fields methods constructor =>
          obtain ⟨decl, hdecl, h⟩ := List.mem_flatMap.mp h
          have hrank := rank_decl h
          simp only [rank, ASTStmt.classDecl.sizeOf_spec] at hrank ⊢
          rcases List.mem_append.mp hdecl with hmethod | hconstructor
          · have := List.sizeOf_lt_of_mem hmethod
            omega
          · obtain rfl : constructor = some decl := Option.mem_toList.mp hconstructor
            rw [Option.some.sizeOf_spec]
            omega
      | _ => cases h

/-- What occurs in a node. -/
def Occurs (inside node : ASTNode) : Prop := Tree.Reaches children node inside

end ASTNode

end BreadLang
