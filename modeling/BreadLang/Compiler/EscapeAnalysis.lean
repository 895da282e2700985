import BreadLang.Compiler.Occurrences
import Mathlib.Data.List.Forall2

/-!
# Escape analysis

`escape_analysis_run` gives the expressions of a program a record that says whether the value may
be allocated on the stack.  An expression starts with a record of its own, and some of the
expressions and statements mark the records of the expressions they are made of.

The analysis is a function from a program to its trees: a node with its record, and the trees of
the nodes that are analysed below it.  What has no record, as everything in a class has not, may
not be allocated on the stack.  The allocations of the analysis are taken to succeed.
-/

namespace BreadLang

/-- `EscapeKind`. -/
inductive EscapeKind where
  | unknown
  | none
  | return
  | global
  | parameter
  | heap
  deriving DecidableEq

/-- The position of a kind in the enumeration. -/
def EscapeKind.toNat : EscapeKind → ℕ
  | .unknown => 0
  | .none => 1
  | .return => 2
  | .global => 3
  | .parameter => 4
  | .heap => 5

/-- `EscapeInfo`. -/
structure EscapeInfo where
  escapeKind : EscapeKind
  canStackAllocate : Bool
  lifetimeEnd : ℤ
  refCount : ℕ

namespace EscapeInfo

/-- `alloc_escape_info`, with the reference that `analyze_expr_escape` sets. -/
def alloc : EscapeInfo := ⟨.unknown, true, -1, 1⟩

/-- `mark_escape`. -/
def mark (kind : EscapeKind) (info : EscapeInfo) : EscapeInfo :=
  { info with
    escapeKind := if kind.toNat > info.escapeKind.toNat then kind else info.escapeKind
    canStackAllocate :=
      match kind with
      | .none => true
      | .return | .parameter | .global | .heap => false
      | .unknown => info.canStackAllocate }

/-- Whether an element or a member of the value is marked as well. -/
def isHeap (info : EscapeInfo) : Bool := info.escapeKind.toNat ≥ EscapeKind.heap.toNat

end EscapeInfo

/-- A node with its record, and the nodes that are analysed below it. -/
abbrev EscapeTree := Tree.Annotated ASTNode (Option EscapeInfo)

namespace EscapeTree

/-- A change of the record of the node, where it has one. -/
def modifyInfo (f : EscapeInfo → EscapeInfo) : EscapeTree → EscapeTree
  | .node a info children => .node a (info.map f) children

/-- `can_stack_allocate`. -/
def canStackAllocate (t : EscapeTree) : Bool := t.info.any EscapeInfo.canStackAllocate

/-- The test of `analyze_expr_escape` on the target of an index or a member. -/
def isHeap (t : EscapeTree) : Bool := t.info.any EscapeInfo.isHeap

/-- An expression that marks its own record. -/
def marked (kind : EscapeKind) (e : ASTExpr) (children : List EscapeTree) : EscapeTree :=
  .node (.expr e) (some (EscapeInfo.alloc.mark kind)) children

/-- An expression whose value is gone after the statement. -/
def temporary (index : ℤ) (e : ASTExpr) (children : List EscapeTree) : EscapeTree :=
  .node (.expr e) (some { EscapeInfo.alloc.mark .none with lifetimeEnd := index }) children

/-- A statement, which has no record. -/
def ofStmt (s : ASTStmt) (children : List EscapeTree) : EscapeTree :=
  .node (.stmt s) none children

end EscapeTree

open EscapeTree

mutual

/-- `analyze_expr_escape`, in the statement with the given index.  Whether the expression is the
target of an assignment makes no difference. -/
def analyzeExprEscape (index : ℤ) : ASTExpr → EscapeTree
  | .null => .node (.expr .null) none []
  | .nil => temporary index .nil []
  | .bool v => temporary index (.bool v) []
  | .int n => temporary index (.int n) []
  | .double d => temporary index (.double d) []
  | .string s => temporary index (.string s) []
  | .var name => marked .none (.var name) []
  | .self => marked .none .self []
  | .super => marked .none .super []
  | .binary op left right =>
      temporary index (.binary op left right)
        [analyzeExprEscape index left, analyzeExprEscape index right]
  | .unary op operand => temporary index (.unary op operand) [analyzeExprEscape index operand]
  | .call name args =>
      marked .return (.call name args)
        ((analyzeExprsEscape index args).map (modifyInfo (.mark .parameter)))
  | .index target i =>
      marked (if isHeap (analyzeExprEscape index target) then .heap else .none) (.index target i)
        [analyzeExprEscape index target, analyzeExprEscape index i]
  | .member target name isOptionalChain =>
      marked (if isHeap (analyzeExprEscape index target) then .heap else .none)
        (.member target name isOptionalChain) [analyzeExprEscape index target]
  | .array items =>
      marked .heap (.array items)
        ((analyzeExprsEscape index items).map (modifyInfo (.mark .heap)))
  | .dict entries =>
      marked .heap (.dict entries)
        ((analyzeEntriesEscape index entries).map (modifyInfo (.mark .heap)))
  | .methodCall target name args isOptionalChain =>
      marked .return (.methodCall target name args isOptionalChain)
        (analyzeExprEscape index target ::
          (analyzeExprsEscape index args).map (modifyInfo (.mark .parameter)))
  | .stringLiteral s => .node (.expr (.stringLiteral s)) (some .alloc) []
  | .arrayLiteral elements =>
      marked .heap (.arrayLiteral elements) (analyzeExprsEscape index elements)
  | .structLiteral name fields =>
      marked .heap (.structLiteral name fields) (analyzeFieldsEscape index fields)
  | .classLiteral name fields =>
      marked .heap (.classLiteral name fields) (analyzeFieldsEscape index fields)

/-- The loop over arguments, items or elements. -/
def analyzeExprsEscape (index : ℤ) : List ASTExpr → List EscapeTree
  | [] => []
  | e :: es => analyzeExprEscape index e :: analyzeExprsEscape index es

/-- The loop over the entries of a dictionary. -/
def analyzeEntriesEscape (index : ℤ) : List (ASTExpr × ASTExpr) → List EscapeTree
  | [] => []
  | (key, value) :: entries =>
      analyzeExprEscape index key :: analyzeExprEscape index value ::
        analyzeEntriesEscape index entries

/-- The loop over the field values of a struct or class literal. -/
def analyzeFieldsEscape (index : ℤ) : List (Ident × ASTExpr) → List EscapeTree
  | [] => []
  | (_, value) :: fields => analyzeExprEscape index value :: analyzeFieldsEscape index fields

end

/-- What a declaration does to the record of the initial value. -/
def EscapeInfo.declared (info : EscapeInfo) : EscapeInfo :=
  if info.escapeKind == .none then { info with lifetimeEnd := -1 } else info

/-- What a `print` does to the record of its expression. -/
def EscapeInfo.printed (info : EscapeInfo) : EscapeInfo :=
  { info with refCount := info.refCount + 1 }

mutual

/-- `analyze_stmt_escape`, which takes the index of the last statement and returns the new one. -/
def analyzeStmtEscape (index : ℤ) : ASTStmt → EscapeTree × ℤ
  | .varDecl name type typeDesc init isConst =>
      (ofStmt (.varDecl name type typeDesc init isConst)
        [modifyInfo .declared (analyzeExprEscape (index + 1) init)], index + 1)
  | .varAssign name value op =>
      (ofStmt (.varAssign name value op) [analyzeExprEscape (index + 1) value], index + 1)
  | .indexAssign target i value op =>
      (ofStmt (.indexAssign target i value op)
        [analyzeExprEscape (index + 1) target, analyzeExprEscape (index + 1) i,
          analyzeExprEscape (index + 1) value], index + 1)
  | .memberAssign target member value op =>
      (ofStmt (.memberAssign target member value op)
        [analyzeExprEscape (index + 1) target, analyzeExprEscape (index + 1) value], index + 1)
  | .print e =>
      (ofStmt (.print e) [modifyInfo .printed (analyzeExprEscape (index + 1) e)], index + 1)
  | .expr e => (ofStmt (.expr e) [analyzeExprEscape (index + 1) e], index + 1)
  | .ifStmt condition thenBranch elseBranch =>
      let t := analyzeBodyEscape (index + 1) thenBranch
      let e := analyzeBodyEscape t.2 elseBranch
      (ofStmt (.ifStmt condition thenBranch elseBranch)
        (analyzeExprEscape (index + 1) condition :: (t.1 ++ e.1)), e.2)
  | .whileStmt condition body =>
      let b := analyzeBodyEscape (index + 1) body
      (ofStmt (.whileStmt condition body) (analyzeExprEscape (index + 1) condition :: b.1), b.2)
  | .forStmt name rangeExpr body =>
      let b := analyzeBodyEscape (index + 1) body
      (ofStmt (.forStmt name rangeExpr body) (analyzeExprEscape (index + 1) rangeExpr :: b.1), b.2)
  | .forIn name iterable body =>
      let b := analyzeBodyEscape (index + 1) body
      (ofStmt (.forIn name iterable body) (analyzeExprEscape (index + 1) iterable :: b.1), b.2)
  | .funcDecl ⟨name, params, returnType, returnTypeDesc, body⟩ =>
      let b := analyzeBodyEscape (index + 1) body
      (ofStmt (.funcDecl ⟨name, params, returnType, returnTypeDesc, body⟩) b.1, b.2)
  | .return e tag =>
      (ofStmt (.return e tag)
        [modifyInfo (.mark .return) (analyzeExprEscape (index + 1) e)], index + 1)
  | s => (ofStmt s [], index + 1)

/-- The loop over the statements of a block, which may be missing. -/
def analyzeBodyEscape (index : ℤ) : Option (List ASTStmt) → List EscapeTree × ℤ
  | none => ([], index)
  | some stmts => analyzeStmtsEscape index stmts

def analyzeStmtsEscape (index : ℤ) : List ASTStmt → List EscapeTree × ℤ
  | [] => ([], index)
  | s :: stmts =>
      let first := analyzeStmtEscape index s
      let rest := analyzeStmtsEscape first.2 stmts
      (first.1 :: rest.1, rest.2)

end

/-- `escape_analysis_run`. -/
def escapeAnalysisRun (program : ASTStmtList) : List EscapeTree :=
  (analyzeStmtsEscape 0 program).1

/-! ### Values that outlive their statement -/

/-- The expressions an expression is made of, and whether the value of each is passed as an
argument, or stored as an element, a key, a value or a field. -/
def ASTExpr.places : ASTExpr → List (ASTExpr × Bool)
  | .binary _ left right => [(left, false), (right, false)]
  | .unary _ operand => [(operand, false)]
  | .call _ args => args.map fun arg => (arg, true)
  | .array items => items.map fun item => (item, true)
  | .dict entries => entries.flatMap fun entry => [(entry.1, true), (entry.2, true)]
  | .index target i => [(target, false), (i, false)]
  | .member target _ _ => [(target, false)]
  | .methodCall target _ args _ => (target, false) :: args.map fun arg => (arg, true)
  | .arrayLiteral elements => elements.map fun e => (e, true)
  | .structLiteral _ fields | .classLiteral _ fields => fields.map fun f => (f.2, true)
  | _ => []

namespace ASTNode

/-- The statements of a block, none of which has a value. -/
def blockPlaces (body : Option (List ASTStmt)) : List (ASTNode × Bool) :=
  (body.getD []).map fun s => (.stmt s, false)

/-- The nodes that are analysed below a node, and whether the value of each can outlive its
statement: it is passed, stored, assigned to a variable, an element or a member, or returned. -/
def places : ASTNode → List (ASTNode × Bool)
  | .expr e => e.places.map fun p => (.expr p.1, p.2)
  | .stmt (.varDecl _ _ _ init _) => [(.expr init, true)]
  | .stmt (.varAssign _ value op) => [(.expr value, op.isNone)]
  | .stmt (.indexAssign target i value op) =>
      [(.expr target, false), (.expr i, false), (.expr value, op.isNone)]
  | .stmt (.memberAssign target _ value op) => [(.expr target, false), (.expr value, op.isNone)]
  | .stmt (.print e) | .stmt (.expr e) => [(.expr e, false)]
  | .stmt (.ifStmt condition thenBranch elseBranch) =>
      (.expr condition, false) :: (blockPlaces thenBranch ++ blockPlaces elseBranch)
  | .stmt (.whileStmt condition body) => (.expr condition, false) :: blockPlaces body
  | .stmt (.forStmt _ range body) | .stmt (.forIn _ range body) =>
      (.expr range, false) :: blockPlaces body
  | .stmt (.funcDecl decl) => blockPlaces decl.body
  | .stmt (.return e _) => [(.expr e, true)]
  | .stmt _ => []

/-- The nodes that are analysed below a node. -/
def analysed (node : ASTNode) : List ASTNode := node.places.map Prod.fst

/-- The nodes that mark what they pass, store or return: calls, method calls, arrays, dictionaries
and `return`. -/
def marksPlaces : ASTNode → Bool
  | .expr (.call _ _) | .expr (.methodCall _ _ _ _) | .expr (.array _) | .expr (.dict _)
  | .stmt (.return _ _) => true
  | _ => false

end ASTNode

/-- An array, a dictionary, a literal with elements or fields, or an element or a member of one. -/
def ASTExpr.isOnHeap : ASTExpr → Bool
  | .array _ | .dict _ | .arrayLiteral _ | .structLiteral _ _ | .classLiteral _ _ => true
  | .index target _ => target.isOnHeap
  | .member target _ _ => target.isOnHeap
  | _ => false

/-- A node that is kept off the stack by itself. -/
def ASTNode.marksItself : ASTNode → Bool
  | .expr .null | .expr (.call _ _) | .expr (.methodCall _ _ _ _) | .stmt _ => true
  | .expr e => e.isOnHeap

namespace EscapeTree

/-- No value that can outlive its statement may be allocated on the stack. -/
def Sound (t : EscapeTree) : Prop :=
  Tree.Annotated.Each (fun sub => ∀ p ∈ sub.children.zip sub.of.places,
    p.2.2 = true → canStackAllocate p.1 = false) t

/-- The tree is that of the place, which has the mark of its node and that of the node above. -/
def MarkedAt (marks : Bool) (child : EscapeTree) (place : ASTNode × Bool) : Prop :=
  child.of = place.1 ∧ canStackAllocate child = !(place.1.marksItself || (place.2 && marks))

/-- The trees below a node are those of the nodes analysed below it, with their marks. -/
def WellMarked (sub : EscapeTree) : Prop :=
  List.Forall₂ (MarkedAt sub.of.marksPlaces) sub.children sub.of.places

theorem WellMarked.follows {sub : EscapeTree} (h : WellMarked sub) :
    Tree.Annotated.Follows ASTNode.analysed sub := by
  unfold Tree.Annotated.Follows ASTNode.analysed
  unfold WellMarked at h
  generalize sub.children = children, sub.of.places = places, sub.of.marksPlaces = marks at h ⊢
  induction h with
  | nil => rfl
  | cons hfirst _ ih => rw [List.map_cons, List.map_cons, hfirst.1, ih]

theorem sound_at_iff {sub : EscapeTree} (h : WellMarked sub) :
    (∀ p ∈ sub.children.zip sub.of.places, p.2.2 = true → canStackAllocate p.1 = false) ↔
      ∀ place ∈ sub.of.places, place.2 = true →
        (place.1.marksItself || sub.of.marksPlaces) = true := by
  unfold WellMarked at h
  generalize sub.children = children, sub.of.places = places, sub.of.marksPlaces = marks at h ⊢
  induction h with
  | nil => exact iff_of_true (by simp) (by simp)
  | @cons child place _ _ hfirst _ ih =>
      rw [List.zip_cons_cons, List.forall_mem_cons, List.forall_mem_cons, ih]
      refine and_congr_left fun _ => ?_
      refine forall_congr' fun hplace => ?_
      rw [hfirst.2, hplace, Bool.true_and, Bool.not_eq_false']

/-- A tree with the right marks is sound if and only if every value that outlives its statement is
marked by itself or by the node above. -/
theorem sound_iff {t : EscapeTree} (h : Tree.Annotated.Each WellMarked t) :
    t.Sound ↔ ∀ node, Tree.Reaches ASTNode.analysed t.of node →
      ∀ place ∈ node.places, place.2 = true →
        (place.1.marksItself || node.marksPlaces) = true := by
  have hfollows : Tree.Annotated.Each (Tree.Annotated.Follows ASTNode.analysed) t :=
    fun sub hsub => (h sub hsub).follows
  rw [← Tree.Annotated.each_of_iff hfollows]
  exact forall₂_congr fun sub hsub => sound_at_iff (h sub hsub)

@[simp] theorem of_modifyInfo (f : EscapeInfo → EscapeInfo) (t : EscapeTree) :
    (modifyInfo f t).of = t.of := by
  cases t
  rfl

@[simp] theorem children_modifyInfo (f : EscapeInfo → EscapeInfo) (t : EscapeTree) :
    (modifyInfo f t).children = t.children := by
  cases t
  rfl

theorem each_modifyInfo {f : EscapeInfo → EscapeInfo} {t : EscapeTree}
    (h : Tree.Annotated.Each WellMarked t) : Tree.Annotated.Each WellMarked (modifyInfo f t) := by
  obtain ⟨hroot, hchildren⟩ := Tree.Annotated.each_iff.mp h
  refine Tree.Annotated.each_iff.mpr ⟨?_, ?_⟩
  · unfold WellMarked at hroot ⊢
    rwa [of_modifyInfo, children_modifyInfo]
  · rwa [children_modifyInfo]

/-- A change that leaves the permission alone. -/
theorem canStackAllocate_modifyInfo {f : EscapeInfo → EscapeInfo}
    (hf : ∀ info, (f info).canStackAllocate = info.canStackAllocate) (t : EscapeTree) :
    canStackAllocate (modifyInfo f t) = canStackAllocate t := by
  obtain ⟨a, info, children⟩ := t
  cases info with
  | none => rfl
  | some info => exact hf info

/-- A mark from above takes the permission away. -/
theorem canStackAllocate_mark {kind : EscapeKind}
    (hkind : ∀ info : EscapeInfo, (info.mark kind).canStackAllocate = false) (t : EscapeTree) :
    canStackAllocate (modifyInfo (.mark kind) t) = false := by
  obtain ⟨a, info, children⟩ := t
  cases info with
  | none => rfl
  | some info => exact hkind info

end EscapeTree

/-! ### The marks of expressions -/

section Expressions

variable (index : ℤ)

theorem analyzeExprsEscape_eq (es : List ASTExpr) :
    analyzeExprsEscape index es = es.map (analyzeExprEscape index) := by
  induction es with
  | nil => rfl
  | cons e es ih => rw [analyzeExprsEscape, ih, List.map_cons]

theorem analyzeEntriesEscape_eq (entries : List (ASTExpr × ASTExpr)) :
    analyzeEntriesEscape index entries =
      (ASTExpr.dict entries).children.map (analyzeExprEscape index) := by
  induction entries with
  | nil => rfl
  | cons entry entries ih =>
      rw [analyzeEntriesEscape, ih]
      rfl

theorem analyzeFieldsEscape_eq (fields : List (Ident × ASTExpr)) :
    analyzeFieldsEscape index fields =
      (fields.map Prod.snd).map (analyzeExprEscape index) := by
  induction fields with
  | nil => rfl
  | cons field fields ih => rw [analyzeFieldsEscape, ih]; rfl

theorem of_analyzeExprEscape (e : ASTExpr) : (analyzeExprEscape index e).of = .expr e := by
  cases e <;> rfl

/-- An expression on the heap is known by its shape. -/
theorem isHeap_analyzeExprEscape : ∀ e : ASTExpr,
    isHeap (analyzeExprEscape index e) = e.isOnHeap
  | .index target i => by
      rw [analyzeExprEscape, isHeap_analyzeExprEscape target, ASTExpr.isOnHeap]
      cases target.isOnHeap <;> rfl
  | .member target name isOptionalChain => by
      rw [analyzeExprEscape, isHeap_analyzeExprEscape target, ASTExpr.isOnHeap]
      cases target.isOnHeap <;> rfl
  | .null | .nil | .bool _ | .int _ | .double _ | .string _ | .var _ | .self | .super
  | .binary .. | .unary .. | .call .. | .array _ | .dict _ | .methodCall .. | .stringLiteral _
  | .arrayLiteral _ | .structLiteral .. | .classLiteral .. => rfl

/-- The permission of an expression before the node above marks it. -/
theorem canStackAllocate_analyzeExprEscape (e : ASTExpr) :
    canStackAllocate (analyzeExprEscape index e) = !(ASTNode.expr e).marksItself := by
  cases e with
  | index target i =>
      have hself : (ASTNode.expr (.index target i)).marksItself = target.isOnHeap := rfl
      rw [analyzeExprEscape, isHeap_analyzeExprEscape, hself]
      cases target.isOnHeap <;> rfl
  | member target name isOptionalChain =>
      have hself : (ASTNode.expr (.member target name isOptionalChain)).marksItself =
        target.isOnHeap := rfl
      rw [analyzeExprEscape, isHeap_analyzeExprEscape, hself]
      cases target.isOnHeap <;> rfl
  | _ => rfl

/-- The mark that an expression puts on what it passes or stores. -/
def ASTExpr.placeMark : ASTExpr → EscapeKind
  | .array _ | .dict _ => .heap
  | _ => .parameter

theorem placeMark_heap (e : ASTExpr) (info : EscapeInfo) :
    (info.mark e.placeMark).canStackAllocate = false := by
  cases e <;> rfl

/-- The tree of an expression below another one. -/
def placeTree (e : ASTExpr) (place : ASTExpr × Bool) : EscapeTree :=
  if place.2 && (ASTNode.expr e).marksPlaces then
    modifyInfo (.mark e.placeMark) (analyzeExprEscape index place.1)
  else analyzeExprEscape index place.1

theorem children_analyzeExprEscape (e : ASTExpr) :
    (analyzeExprEscape index e).children = e.places.map (placeTree index e) := by
  cases e with
  | call name args =>
      rw [analyzeExprEscape, analyzeExprsEscape_eq, ASTExpr.places, List.map_map, List.map_map]
      rfl
  | array items =>
      rw [analyzeExprEscape, analyzeExprsEscape_eq, ASTExpr.places, List.map_map, List.map_map]
      rfl
  | methodCall target name args isOptionalChain =>
      rw [analyzeExprEscape, analyzeExprsEscape_eq, ASTExpr.places, List.map_cons, List.map_map,
        List.map_map]
      rfl
  | dict entries =>
      rw [analyzeExprEscape, analyzeEntriesEscape_eq, ASTExpr.places, ASTExpr.children,
        List.map_map, List.map_flatMap, List.map_flatMap]
      rfl
  | arrayLiteral elements =>
      rw [analyzeExprEscape, analyzeExprsEscape_eq, ASTExpr.places, List.map_map]
      rfl
  | structLiteral name fields =>
      rw [analyzeExprEscape, analyzeFieldsEscape_eq, ASTExpr.places, List.map_map, List.map_map]
      rfl
  | classLiteral name fields =>
      rw [analyzeExprEscape, analyzeFieldsEscape_eq, ASTExpr.places, List.map_map, List.map_map]
      rfl
  | _ => rfl

theorem places_fst (e : ASTExpr) : e.places.map Prod.fst = e.children := by
  cases e with
  | dict entries => simp [ASTExpr.places, ASTExpr.children, List.map_flatMap]
  | _ => simp [ASTExpr.places, ASTExpr.children, Function.comp_def]

theorem wellMarked_analyzeExprEscape (e : ASTExpr) : WellMarked (analyzeExprEscape index e) := by
  unfold WellMarked
  rw [children_analyzeExprEscape, of_analyzeExprEscape, ASTNode.places,
    List.forall₂_map_left_iff, List.forall₂_map_right_iff, List.forall₂_same]
  intro place hplace
  unfold placeTree
  by_cases hmark : (place.2 && (ASTNode.expr e).marksPlaces) = true
  · rw [if_pos hmark]
    refine ⟨(of_modifyInfo _ _).trans (of_analyzeExprEscape index _), ?_⟩
    rw [canStackAllocate_mark (placeMark_heap e)]
    simp [hmark]
  · rw [if_neg hmark]
    refine ⟨of_analyzeExprEscape index _, ?_⟩
    rw [canStackAllocate_analyzeExprEscape, (Bool.not_eq_true _).mp hmark, Bool.or_false]

/-- The whole tree of an expression is marked right, by induction on the expression. -/
theorem each_analyzeExprEscape (e : ASTExpr) :
    Tree.Annotated.Each WellMarked (analyzeExprEscape index e) := by
  induction hn : sizeOf e using Nat.strongRecOn generalizing e with
  | _ n ih =>
      refine Tree.Annotated.each_iff.mpr ⟨wellMarked_analyzeExprEscape index e, fun c hc => ?_⟩
      rw [children_analyzeExprEscape] at hc
      obtain ⟨place, hplace, rfl⟩ := List.mem_map.mp hc
      have hchild : place.1 ∈ e.children := places_fst e ▸ List.mem_map_of_mem hplace
      have heach := ih _ (hn ▸ ASTNode.sizeOf_child hchild) place.1 rfl
      unfold placeTree
      split
      · exact each_modifyInfo heach
      · exact heach

end Expressions

/-! ### The marks of statements -/

section Statements

/-- The tree of a statement: it is the root, has no record, and is marked right throughout. -/
structure TreeOf (t : EscapeTree) (s : ASTStmt) : Prop where
  of_eq : t.of = .stmt s
  info_eq : t.info = none
  each : Tree.Annotated.Each WellMarked t

theorem TreeOf.markedAt {t : EscapeTree} {s : ASTStmt} (h : TreeOf t s) (marks : Bool) :
    MarkedAt marks t (.stmt s, false) := by
  refine ⟨h.of_eq, ?_⟩
  unfold canStackAllocate
  rw [h.info_eq]
  rfl

/-- A statement whose trees are marked right. -/
theorem treeOf_ofStmt {s : ASTStmt} {children : List EscapeTree}
    (hmarked :
      List.Forall₂ (MarkedAt (ASTNode.stmt s).marksPlaces) children (ASTNode.stmt s).places)
    (heach : ∀ c ∈ children, Tree.Annotated.Each WellMarked c) : TreeOf (ofStmt s children) s :=
  ⟨rfl, rfl, Tree.Annotated.each_iff.mpr ⟨hmarked, heach⟩⟩

/-- An expression of a statement that marks nothing. -/
theorem markedAt_expr (index : ℤ) (e : ASTExpr) (outlives : Bool) :
    MarkedAt false (analyzeExprEscape index e) (.expr e, outlives) := by
  refine ⟨of_analyzeExprEscape index e, ?_⟩
  rw [canStackAllocate_analyzeExprEscape, Bool.and_false, Bool.or_false]

/-- The trees of a block. -/
def TreesOf (trees : List EscapeTree) (stmts : List ASTStmt) : Prop :=
  List.Forall₂ TreeOf trees stmts

theorem TreesOf.markedAt {trees : List EscapeTree} {stmts : List ASTStmt}
    (h : TreesOf trees stmts) (marks : Bool) :
    List.Forall₂ (MarkedAt marks) trees (stmts.map fun s => (.stmt s, false)) :=
  List.forall₂_map_right_iff.mpr (h.imp fun _ _ ht => ht.markedAt marks)

theorem TreesOf.each {trees : List EscapeTree} {stmts : List ASTStmt} (h : TreesOf trees stmts) :
    ∀ t ∈ trees, Tree.Annotated.Each WellMarked t := by
  induction h with
  | nil => intro t ht; cases ht
  | cons hfirst _ ih => exact List.forall_mem_cons.mpr ⟨hfirst.each, ih⟩

/-- A loop: an expression, and the trees of a block. -/
theorem treeOf_loop {s : ASTStmt} {e : ASTExpr} {body : Option (List ASTStmt)} {index : ℤ}
    {trees : List EscapeTree} (hmarks : (ASTNode.stmt s).marksPlaces = false)
    (hplaces : (ASTNode.stmt s).places = (.expr e, false) :: ASTNode.blockPlaces body)
    (h : TreesOf trees (body.getD [])) :
    TreeOf (ofStmt s (analyzeExprEscape index e :: trees)) s := by
  refine treeOf_ofStmt ?_ (List.forall_mem_cons.mpr ⟨each_analyzeExprEscape index e, h.each⟩)
  rw [hmarks, hplaces]
  exact .cons (markedAt_expr index e false) (h.markedAt false)

mutual

theorem treeOf_analyzeStmtEscape (index : ℤ) :
    ∀ s : ASTStmt, TreeOf (analyzeStmtEscape index s).1 s
  | .varDecl name type typeDesc init isConst => by
      refine treeOf_ofStmt (.cons ⟨?_, ?_⟩ .nil) ?_
      · exact (of_modifyInfo _ _).trans (of_analyzeExprEscape _ init)
      · rw [canStackAllocate_modifyInfo]
        · exact (markedAt_expr (index + 1) init true).2
        · intro info
          unfold EscapeInfo.declared
          split <;> rfl
      · exact List.forall_mem_singleton.mpr (each_modifyInfo (each_analyzeExprEscape _ init))
  | .varAssign name value op =>
      treeOf_ofStmt (.cons (markedAt_expr _ value _) .nil)
        (List.forall_mem_singleton.mpr (each_analyzeExprEscape _ value))
  | .indexAssign target i value op =>
      treeOf_ofStmt
        (.cons (markedAt_expr _ target _) (.cons (markedAt_expr _ i _)
          (.cons (markedAt_expr _ value _) .nil)))
        (List.forall_mem_cons.mpr ⟨each_analyzeExprEscape _ target, List.forall_mem_cons.mpr
          ⟨each_analyzeExprEscape _ i,
            List.forall_mem_singleton.mpr (each_analyzeExprEscape _ value)⟩⟩)
  | .memberAssign target member value op =>
      treeOf_ofStmt (.cons (markedAt_expr _ target _) (.cons (markedAt_expr _ value _) .nil))
        (List.forall_mem_cons.mpr ⟨each_analyzeExprEscape _ target,
          List.forall_mem_singleton.mpr (each_analyzeExprEscape _ value)⟩)
  | .print e => by
      refine treeOf_ofStmt (.cons ⟨?_, ?_⟩ .nil) ?_
      · exact (of_modifyInfo _ _).trans (of_analyzeExprEscape _ e)
      · rw [canStackAllocate_modifyInfo (f := .printed) fun _ => rfl]
        exact (markedAt_expr (index + 1) e false).2
      · exact List.forall_mem_singleton.mpr (each_modifyInfo (each_analyzeExprEscape _ e))
  | .expr e =>
      treeOf_ofStmt (.cons (markedAt_expr _ e _) .nil)
        (List.forall_mem_singleton.mpr (each_analyzeExprEscape _ e))
  | .ifStmt condition thenBranch elseBranch => by
      have hthen := treesOf_analyzeBodyEscape (index + 1) thenBranch
      have helse := treesOf_analyzeBodyEscape
        (analyzeBodyEscape (index + 1) thenBranch).2 elseBranch
      refine treeOf_ofStmt (.cons (markedAt_expr _ condition _) ?_)
        (List.forall_mem_cons.mpr ⟨each_analyzeExprEscape _ condition,
          List.forall_mem_append.mpr ⟨hthen.each, helse.each⟩⟩)
      exact List.rel_append (hthen.markedAt false) (helse.markedAt false)
  | .whileStmt condition body => treeOf_loop rfl rfl (treesOf_analyzeBodyEscape _ body)
  | .forStmt name rangeExpr body => treeOf_loop rfl rfl (treesOf_analyzeBodyEscape _ body)
  | .forIn name iterable body => treeOf_loop rfl rfl (treesOf_analyzeBodyEscape _ body)
  | .funcDecl ⟨name, params, returnType, returnTypeDesc, body⟩ =>
      treeOf_ofStmt ((treesOf_analyzeBodyEscape _ body).markedAt false)
        (treesOf_analyzeBodyEscape _ body).each
  | .return e tag => by
      refine treeOf_ofStmt (.cons ⟨?_, ?_⟩ .nil) ?_
      · exact (of_modifyInfo _ _).trans (of_analyzeExprEscape _ e)
      · rw [canStackAllocate_mark fun _ => rfl]
        simp [ASTNode.marksPlaces]
      · exact List.forall_mem_singleton.mpr (each_modifyInfo (each_analyzeExprEscape _ e))
  | .break | .continue | .structDecl .. | .classDecl .. | .importStmt .. | .exportStmt .. =>
      treeOf_ofStmt .nil (List.forall_mem_nil _)

theorem treesOf_analyzeBodyEscape (index : ℤ) :
    ∀ body : Option (List ASTStmt), TreesOf (analyzeBodyEscape index body).1 (body.getD [])
  | none => .nil
  | some stmts => treesOf_analyzeStmtsEscape index stmts

theorem treesOf_analyzeStmtsEscape (index : ℤ) :
    ∀ stmts : List ASTStmt, TreesOf (analyzeStmtsEscape index stmts).1 stmts
  | [] => .nil
  | s :: stmts => .cons (treeOf_analyzeStmtEscape index s) (treesOf_analyzeStmtsEscape _ stmts)

end

end Statements

/-! ### Soundness -/

/-- The records of a program are sound. -/
def EscapesSound (trees : List EscapeTree) : Prop := ∀ t ∈ trees, t.Sound

/-- **Escape analysis is sound** if and only if every analysed value that can outlive its
statement is kept off the stack by its own shape, or belongs to a call, an array, a dictionary
or a `return`. -/
theorem escape_analysis_sound_iff (program : ASTStmtList) :
    EscapesSound (escapeAnalysisRun program) ↔
      ∀ s ∈ program, ∀ node, Tree.Reaches ASTNode.analysed (.stmt s) node →
        ∀ place ∈ node.places, place.2 = true →
          (place.1.marksItself || node.marksPlaces) = true := by
  have htrees := treesOf_analyzeStmtsEscape 0 program
  unfold EscapesSound escapeAnalysisRun
  generalize (analyzeStmtsEscape 0 program).1 = trees at htrees
  unfold TreesOf at htrees
  induction htrees with
  | nil => exact iff_of_true (List.forall_mem_nil _) (List.forall_mem_nil _)
  | cons hfirst _ ih =>
      rw [List.forall_mem_cons, List.forall_mem_cons, EscapeTree.sound_iff hfirst.each,
        hfirst.of_eq]
      exact and_congr_right fun _ => ih

/-- `x = y + 1`: the value of the sum lives as long as the variable. -/
def assignedSum : ASTStmtList := [.varAssign ['x'] (.binary '+' (.var ['y']) (.int 1)) none]

/-- **An assigned value may be allocated on the stack.** -/
theorem assigned_sum_on_stack : ¬EscapesSound (escapeAnalysisRun assignedSum) := by
  intro h
  have := h _ (.head _) _ .refl _ (.head _) rfl
  cases this

end BreadLang
