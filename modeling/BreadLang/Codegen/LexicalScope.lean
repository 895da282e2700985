import BreadLang.Codegen.ProgramPoints
import BreadLang.Codegen.Steps

/-!
# Two scopes for one body

The analysis keeps the variables of the open blocks of a function, and forgets
those of a block when it leaves it.  The generator keeps one flat list of the
slots it has made, and a block neither opens nor closes anything.

This module walks a body with both at once.  `ScopePair` is the state of the two
passes before a statement, and it remembers for each variable of the analysis
the slot that the generator has made for that declaration, so the places that
the two passes resolve a name to can be compared.  A loop variable and a variable
of the enclosing top level have no slot and are found at run time.

`ScopedStmts` reads off the text alone which names the generator has captured.
-/

namespace BreadLang

open Stateful

/-! ### The state of the two passes -/

/-- The states of the analysis and of the generator before a statement, with the
slot of each variable of the analysis that has one. -/
structure ScopePair where
  analysis : Cg
  slots : List (Option StackSlot)
  codegen : Cg

namespace ScopePair

variable (p : ScopePair)

/-- **What the analysis resolves a name to**: the slot of the declaration that
`cg_find_var_in_scope` finds, if it finds one that has a slot. -/
def home (name : Ident) : Option StackSlot :=
  ((p.analysis.globalVars.zip p.slots).find? fun v =>
    v.1.name == name && v.1.isInitialized ≤ p.analysis.scopeDepth).bind Prod.snd

/-- **What the generator resolves a name to**: the slot that `cg_scope_find_var`
finds. -/
def slotOf (name : Ident) : Option StackSlot :=
  (p.codegen.scopeFindVar name).map CgVar.alloca

/-- The state at the start of a block, once the generator has built what stands
before it. -/
def enter (codegen : Cg) : ScopePair where
  analysis := p.analysis.enterScope
  slots := p.slots
  codegen := codegen

/-- The state at the start of the body of a loop: the loop variable has no
slot. -/
def enterLoop (name : Ident) (typeDesc : Option TypeDescriptor) (codegen : Cg) :
    ScopePair where
  analysis := p.analysis.enterScope.declared name typeDesc false
  slots := none :: p.slots
  codegen := codegen

/-- The slot of the variable that the generator has added last. -/
def newestSlot (codegen : Cg) : Option StackSlot :=
  codegen.scope.head?.map CgVar.alloca

/-- The slots after a statement.  The variables of a block are gone after it. -/
def slotsAfter (codegen : Cg) : ASTStmt → List (Option StackSlot)
  | .varDecl _ _ _ _ _ => newestSlot codegen :: p.slots
  | _ => p.slots

/-- **The state after a statement**, which `builder n` builds. -/
def after (n : ℕ) (fn : CgCallee) (s : ASTStmt) : ScopePair :=
  let codegen := ((builder n).stmt (some fn) s).final p.codegen
  { analysis := afterStmt p.analysis s
    slots := p.slotsAfter codegen s
    codegen := codegen }

end ScopePair

/-! ### Uses of variables -/

/-- How a name is used.  A compound assignment reads the variable and writes it
back. -/
inductive UseRole where
  | read
  | assign (op : Option Char)

/-- The use of a name in a body, with the states of the two passes there. -/
structure VarUse where
  scopes : ScopePair
  name : Ident
  role : UseRole

/-- The slot that the generator uses; a plain assignment to a name that is not in
its scope makes a new one. -/
def VarUse.codegenSlot (u : VarUse) : Option StackSlot :=
  match u.role with
  | .read | .assign (some _) => u.scopes.slotOf u.name
  | .assign none =>
      some ((u.scopes.slotOf u.name).getD (.alloca u.scopes.codegen.nextSlot))

/-- **The two passes agree on a use.** -/
def VarUse.Agrees (u : VarUse) : Prop :=
  u.codegenSlot = u.scopes.home u.name

instance (u : VarUse) : Decidable u.Agrees :=
  inferInstanceAs (Decidable (u.codegenSlot = u.scopes.home u.name))

/-- The variables that are read in an expression. -/
def ASTExpr.varNames (e : ASTExpr) : List Ident :=
  e.subexprs.filterMap fun
    | .var name => some name
    | _ => none

/-- The variables that a statement reads, without the statements in it. -/
def ASTStmt.readNames (s : ASTStmt) : List Ident :=
  s.exprs.flatMap ASTExpr.varNames

/-- The variable that a statement assigns. -/
def ASTStmt.assignedName : ASTStmt → Option (Ident × Option Char)
  | .varAssign name _ op => some (name, op)
  | _ => none

namespace ScopePair

variable (p : ScopePair)

/-- The uses of a statement, without the statements in it. -/
def ownUses (s : ASTStmt) : List VarUse :=
  s.readNames.map (fun name => ⟨p, name, .read⟩) ++
    s.assignedName.toList.map fun a => ⟨p, a.1, .assign a.2⟩

end ScopePair

/-- The state of the generator at the start of the body of a loop. -/
def loopStart {α : Type} (head : Lower α) (cg : Cg) : Cg :=
  head.final { cg with inLoop := true }

mutual

/-- The uses in a statement that `builder n` builds. -/
def stmtVarUses : ℕ → CgCallee → ScopePair → ASTStmt → List VarUse
  | n, fn, p, s@(.ifStmt condition thenBranch elseBranch) =>
      let b := builder (n - 1)
      let thenStart := (buildCondition b (some fn) condition).final p.codegen
      let elseStart := (buildBody b (some fn) thenBranch).final thenStart
      p.ownUses s ++ bodyVarUses (n - 1) fn (p.enter thenStart) thenBranch ++
        bodyVarUses (n - 1) fn
          { analysis := (afterBody p.analysis.enterScope thenBranch).leaveScope.enterScope
            slots := p.slots
            codegen := elseStart } elseBranch
  | n, fn, p, s@(.whileStmt condition body) =>
      let start := loopStart (buildCondition (builder (n - 1)) (some fn) condition) p.codegen
      p.ownUses s ++ bodyVarUses (n - 1) fn (p.enter start) body
  | n, fn, p, s@(.forStmt name _ body) =>
      p.ownUses s ++
        bodyVarUses (n - 1) fn (p.enterLoop name (some .int) (loopStart (pure ()) p.codegen)) body
  | n, fn, p, s@(.forIn name iterable body) =>
      let start := loopStart (buildIterable (builder (n - 1)) (some fn) iterable) p.codegen
      p.ownUses s ++
        bodyVarUses (n - 1) fn
          (p.enterLoop name (Analyze.loopVarType p.analysis.enterScope iterable) start) body
  | _, _, p, s => p.ownUses s

def bodyVarUses : ℕ → CgCallee → ScopePair → Option (List ASTStmt) → List VarUse
  | _, _, _, none => []
  | n, fn, p, some stmts => stmtsVarUses n fn p stmts

/-- The uses in a list of statements that `builder n` builds. -/
def stmtsVarUses : ℕ → CgCallee → ScopePair → List ASTStmt → List VarUse
  | _, _, _, [] => []
  | n, fn, p, s :: stmts => stmtVarUses n fn p s ++ stmtsVarUses n fn (p.after n fn s) stmts

end

/-- What `generateFunctionBody` makes of a function of the analysed program. -/
def bodyCallee (decl : FuncDecl) : CgCallee :=
  ⟨decl.params, true, none⟩

/-- The state of the two passes at the start of the body of a function: the
parameters have slots, and what is declared around the function has none. -/
def functionStart (decl : FuncDecl) (analysis codegen : Cg) : ScopePair :=
  let codegen := (setupParams decl.params).final { codegen with scope := [] }
  { analysis := analysis.enterScope.declaredParams decl.params
    slots := codegen.scope.map (fun v => some v.alloca) ++ analysis.globalVars.map fun _ => none
    codegen := codegen }

/-- **The uses of variables in the body of a function.** -/
def functionUses (n : ℕ) (decl : FuncDecl) (analysis codegen : Cg) : List VarUse :=
  bodyVarUses n (bodyCallee decl) (functionStart decl analysis codegen) decl.body

/-! ### What the text says -/

/-- What the generator knows of a name at a place of a body. -/
inductive NameStatus where
  /-- It has no slot. -/
  | noSlot
  /-- It has the slot of the declaration that is visible there. -/
  | own
  /-- It has the slot of a declaration that is not visible there. -/
  | captured
  deriving DecidableEq

abbrev Statuses := Ident → NameStatus

namespace Statuses

variable (σ : Statuses)

/-- After a declaration. -/
def declare (name : Ident) : Statuses :=
  fun x => if x = name then .own else σ x

/-- In the body of a loop with that variable. -/
def loopVar (name : Ident) : Statuses :=
  fun x => if x = name ∧ σ name ≠ .noSlot then .captured else σ x

/-- After a block that declares the names. -/
def leave (names : List Ident) : Statuses :=
  fun x => if x ∈ names then .captured else σ x

/-- No name that is read is captured; a plain assignment is to a name with its own
slot, and a compound one to a name that is not captured. -/
def AllowsUses (s : ASTStmt) : Prop :=
  (∀ name ∈ s.readNames, σ name ≠ .captured) ∧
    ∀ name op, s.assignedName = some (name, op) →
      if op.isSome then σ name ≠ .captured else σ name = .own

end Statuses

mutual

/-- The names that the variable declarations in a statement declare, at any
nesting. -/
def declaredIn : ASTStmt → List Ident
  | .varDecl name _ _ _ _ => [name]
  | .ifStmt _ thenBranch elseBranch => declaredInBody thenBranch ++ declaredInBody elseBranch
  | .whileStmt _ body => declaredInBody body
  | .forStmt _ _ body => declaredInBody body
  | .forIn _ _ body => declaredInBody body
  | _ => []

def declaredInBody : Option (List ASTStmt) → List Ident
  | none => []
  | some stmts => declaredInStmts stmts

def declaredInStmts : List ASTStmt → List Ident
  | [] => []
  | s :: stmts => declaredIn s ++ declaredInStmts stmts

end

/-- What is known of names after a statement. -/
def Statuses.after (σ : Statuses) (s : ASTStmt) : Statuses :=
  match s with
  | .varDecl name _ _ _ _ => σ.declare name
  | s => σ.leave (declaredIn s)

mutual

/-- **A statement that uses no captured name.** -/
def ScopedStmt : Statuses → ASTStmt → Prop
  | σ, s@(.ifStmt _ thenBranch elseBranch) =>
      σ.AllowsUses s ∧ ScopedBody σ thenBranch ∧
        ScopedBody (σ.leave (declaredInBody thenBranch)) elseBranch
  | σ, s@(.whileStmt _ body) => σ.AllowsUses s ∧ ScopedBody σ body
  | σ, s@(.forStmt name _ body) => σ.AllowsUses s ∧ ScopedBody (σ.loopVar name) body
  | σ, s@(.forIn name _ body) => σ.AllowsUses s ∧ ScopedBody (σ.loopVar name) body
  | σ, s => σ.AllowsUses s

def ScopedBody : Statuses → Option (List ASTStmt) → Prop
  | _, none => True
  | σ, some stmts => ScopedStmts σ stmts

def ScopedStmts : Statuses → List ASTStmt → Prop
  | _, [] => True
  | σ, s :: stmts => ScopedStmt σ s ∧ ScopedStmts (σ.after s) stmts

end

/-- What is known of names at the start of a function: the parameters have their
own slots. -/
def paramStatuses (params : List ASTParam) : Statuses :=
  fun name => if name ∈ params.map ASTParam.name then .own else .noSlot

/-- **A function whose body uses no captured name.** -/
def ScopedFunction (decl : FuncDecl) : Prop :=
  ScopedBody (paramStatuses decl.params) decl.body

end BreadLang
