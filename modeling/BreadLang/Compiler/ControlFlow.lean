import BreadLang.Compiler.Ast

/-!
# Runs of statements

A run of a list of statements takes either branch of a conditional and goes round a loop as often
as it likes.  It ends with the last statement, or with a jump.
-/

namespace BreadLang

/-- The expression of a `return`, and the type that the analysis has stored for it. -/
abbrev ReturnValue := ASTExpr × Option TypeDescriptor

/-- How a run of statements ends. -/
inductive Ending where
  | normal
  | break
  | continue
  | return (value : ReturnValue)

/-- The body of a loop. -/
def ASTStmt.loopBody : ASTStmt → Option (List ASTStmt)
  | .whileStmt _ body | .forStmt _ _ body | .forIn _ _ body => some (body.getD [])
  | _ => none

/-- The branches of a conditional. -/
def ASTStmt.branches : ASTStmt → List (List ASTStmt)
  | .ifStmt _ thenBranch elseBranch => [thenBranch.getD [], elseBranch.getD []]
  | _ => []

/-- A statement after which the next one is executed, whatever happens. -/
def ASTStmt.IsStraight : ASTStmt → Prop
  | .ifStmt _ _ _ | .whileStmt _ _ | .forStmt _ _ _ | .forIn _ _ _ | .break | .continue
  | .return _ _ => False
  | _ => True

/-- **The runs of a list of statements** that come to an end. -/
inductive Runs : List ASTStmt → Ending → Prop where
  | nil : Runs [] .normal
  | straight {s : ASTStmt} {stmts : List ASTStmt} {ending : Ending} (hs : s.IsStraight)
      (h : Runs stmts ending) : Runs (s :: stmts) ending
  | break {stmts : List ASTStmt} : Runs (.break :: stmts) .break
  | continue {stmts : List ASTStmt} : Runs (.continue :: stmts) .continue
  | return {e : ASTExpr} {tag : Option TypeDescriptor} {stmts : List ASTStmt} :
      Runs (.return e tag :: stmts) (.return (e, tag))
  | branch {s : ASTStmt} {branch stmts : List ASTStmt} {ending : Ending}
      (hbranch : branch ∈ s.branches) (hrun : Runs branch .normal) (h : Runs stmts ending) :
      Runs (s :: stmts) ending
  | branchEnds {s : ASTStmt} {branch stmts : List ASTStmt} {ending : Ending}
      (hbranch : branch ∈ s.branches) (hrun : Runs branch ending) (hends : ending ≠ .normal) :
      Runs (s :: stmts) ending
  | loopDone {s : ASTStmt} {body stmts : List ASTStmt} {ending : Ending}
      (hbody : s.loopBody = some body) (h : Runs stmts ending) : Runs (s :: stmts) ending
  | loopAgain {s : ASTStmt} {body stmts : List ASTStmt} {once ending : Ending}
      (hbody : s.loopBody = some body) (hrun : Runs body once)
      (honce : once = .normal ∨ once = .continue) (h : Runs (s :: stmts) ending) :
      Runs (s :: stmts) ending
  | loopBreak {s : ASTStmt} {body stmts : List ASTStmt} {ending : Ending}
      (hbody : s.loopBody = some body) (hrun : Runs body .break) (h : Runs stmts ending) :
      Runs (s :: stmts) ending
  | loopReturn {s : ASTStmt} {body stmts : List ASTStmt} {value : ReturnValue}
      (hbody : s.loopBody = some body) (hrun : Runs body (.return value)) :
      Runs (s :: stmts) (.return value)

/-- **What a run reaches**, whether it comes to an end or not. -/
inductive RunReaches : List ASTStmt → ASTStmt → Prop where
  | here {s : ASTStmt} {stmts : List ASTStmt} : RunReaches (s :: stmts) s
  | after {s t : ASTStmt} {stmts : List ASTStmt} (hrun : Runs [s] .normal)
      (h : RunReaches stmts t) : RunReaches (s :: stmts) t
  | branch {s t : ASTStmt} {branch stmts : List ASTStmt} (hbranch : branch ∈ s.branches)
      (h : RunReaches branch t) : RunReaches (s :: stmts) t
  | loop {s t : ASTStmt} {body stmts : List ASTStmt} (hbody : s.loopBody = some body)
      (h : RunReaches body t) : RunReaches (s :: stmts) t
  | loopAgain {s t : ASTStmt} {body stmts : List ASTStmt} {once : Ending}
      (hbody : s.loopBody = some body) (hrun : Runs body once)
      (honce : once = .normal ∨ once = .continue) (h : RunReaches (s :: stmts) t) :
      RunReaches (s :: stmts) t

/-- A `break` or a `continue` that no loop of the list encloses. -/
inductive LeavesLoop : List ASTStmt → Prop where
  | break {stmts : List ASTStmt} (h : .break ∈ stmts) : LeavesLoop stmts
  | continue {stmts : List ASTStmt} (h : .continue ∈ stmts) : LeavesLoop stmts
  | branch {s : ASTStmt} {branch stmts : List ASTStmt} (hs : s ∈ stmts)
      (hbranch : branch ∈ s.branches) (h : LeavesLoop branch) : LeavesLoop stmts

namespace LeavesLoop

theorem tail {s : ASTStmt} {stmts : List ASTStmt} (h : LeavesLoop stmts) :
    LeavesLoop (s :: stmts) := by
  cases h with
  | «break» h => exact .break (.tail s h)
  | «continue» h => exact .continue (.tail s h)
  | branch hs hbranch h => exact .branch (.tail _ hs) hbranch h

end LeavesLoop

/-- A run that ends with a jump out of a loop executes one that no loop of the list encloses. -/
theorem Runs.leavesLoop {stmts : List ASTStmt} {ending : Ending} (h : Runs stmts ending)
    (hending : ending = .break ∨ ending = .continue) : LeavesLoop stmts := by
  induction h with
  | nil => obtain hending | hending := hending <;> cases hending
  | straight _ _ ih => exact (ih hending).tail
  | «break» => exact .break (.head _)
  | «continue» => exact .continue (.head _)
  | «return» => obtain hending | hending := hending <;> cases hending
  | branch _ _ _ _ ih => exact (ih hending).tail
  | branchEnds hbranch _ _ ih => exact .branch (.head _) hbranch (ih hending)
  | loopDone _ _ ih => exact (ih hending).tail
  | loopAgain _ _ _ _ _ ih => exact ih hending
  | loopBreak _ _ _ _ ih => exact (ih hending).tail
  | loopReturn => obtain hending | hending := hending <;> cases hending

end BreadLang
