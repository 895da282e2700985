import BreadLang.Codegen.Blocks
import BreadLang.Codegen.ScopeAgreement

/-!
# The terminators of compiled code

The lists of statements are built to their ends whatever they contain: what stands behind a
`return`, `break` or `continue` is appended to the block that this has ended.

## Main results

* `emitBody_wellFormed_iff`: when each block of a body has one terminator, at its end.
-/

namespace BreadLang

open BasicBlocks BasicBlocks.Builder Stateful

/-! ### Statements behind an exit -/

/-- Whether control never comes out of a statement at its end. -/
def CodeStmt.isExit : CodeStmt → Bool
  | .breakLoop _ | .continueLoop _ | .ret _ => true
  | _ => false

mutual

/-- Whether nothing stands behind an exit in the lists of a statement. -/
def CodeStmt.exitsLast : CodeStmt → Bool
  | .ifThenElse _ _ thenCode none => codeExitsLast thenCode
  | .ifThenElse _ _ thenCode (some elseCode) => codeExitsLast thenCode && codeExitsLast elseCode
  | .whileLoop _ _ body => codeExitsLast body
  | .forRange _ _ _ _ _ body => codeExitsLast body
  | .forIn _ _ _ _ body => codeExitsLast body
  | _ => true

def codeExitsLast : List CodeStmt → Bool
  | [] => true
  | s :: rest => s.exitsLast && (!s.isExit || rest.isEmpty) && codeExitsLast rest

end

/-! ### Steps of an emission -/

namespace BasicBlocks.Builder.Lays

variable {ok written exits : Bool} {b : BasicBlocks.Builder Instr Terminator} {pending : List ℕ}
  {e : Emission} {i : ℕ}

theorem emitInstr (h : Lays ok written b pending false e.toBuilder) (instr : Instr) :
    Lays ok true b pending false (e.instr instr).toBuilder :=
  h.instr instr

theorem emitInstrs (instrs : List Instr) :
    ∀ {e : Emission}, Lays ok true b pending false e.toBuilder →
      Lays ok true b pending false (e.instrs instrs).toBuilder := by
  induction instrs with
  | nil => exact fun h => h
  | cons instr instrs ih => exact fun h => ih (h.emitInstr instr)

theorem emitTerminator (h : Lays ok written b pending false e.toBuilder) (t : Terminator) :
    Lays ok true b pending true (e.terminate t).toBuilder :=
  h.terminator t

theorem emitBlocks (h : Lays ok written b pending exits e.toBuilder) (n : ℕ) (γ : Option Context) :
    Lays ok written b (List.range' e.size n ++ pending) exits (e.addBlocks n γ).toBuilder :=
  h.addBlocks n List.nodup_range' fun _ => List.mem_range'_1

theorem moveTo (h : Lays ok true b (i :: pending) true e.toBuilder) :
    Lays ok true b pending false (e.positionAt i).toBuilder :=
  h.positionAt

/-- What is emitted only into a block without a terminator. -/
theorem unlessTerminated {e' : Emission} {exits' : Bool}
    (h : Lays ok true b pending exits e.toBuilder)
    (h' : Lays true written e.toBuilder [] exits' e'.toBuilder) :
    Lays ok true b pending (exits || exits') (if e.hasTerminator then e else e').toBuilder := by
  refine h.step ?_ fun hbuilds => ?_
  · split
    · exact .refl _
    · exact h'.grows
  · rw [hbuilds.hasTerminator_eq]
    cases exits with
    | true => exact hbuilds
    | false => exact hbuilds.trans (h'.result hbuilds.isOpen)

theorem branchIfOpen (h : Lays ok true b pending exits e.toBuilder) (target : ℕ) :
    Lays ok true b pending true (e.branchIfOpen target).toBuilder := by
  have hbranch := h.unlessTerminated ((Lays.start e.toBuilder).emitTerminator (.br (some target)))
  rwa [Bool.or_true] at hbranch

end BasicBlocks.Builder.Lays

/-! ### Pieces of a statement -/

/-- What a function emits, whether something stands behind an exit in it, and whether its
own end is an exit. -/
def Emits (f : Emission → Emission) (ok written exits : Bool) : Prop :=
  ∀ e : Emission, Lays ok written e.toBuilder [] exits (f e).toBuilder

section Pieces

variable {ok ok' written written' exits exits' : Bool} (hasScope : Bool)
  {body : Emission → Emission}

theorem emits_scopedBranch (h : Emits body ok written exits) :
    Emits (Emission.scopedBranch hasScope body) ok (hasScope || written) exits := by
  intro e
  cases hasScope with
  | false => exact h e
  | true =>
      have hpushed := ((Lays.start e.toBuilder).emitInstr .scopeDepth).emitInstr .pushScope
      have hbody := (hpushed.trans (h _)).unlessTerminated
        ((Lays.start _).emitInstr (.popTo (.result e.current)))
      rwa [Bool.or_false] at hbody

/-- The body of a loop is always left. -/
theorem lays_loopBody {b : BasicBlocks.Builder Instr Terminator} {pending : List ℕ}
    {e : Emission} (h : Emits body ok written exits) (enter : List Instr) (next : ℕ)
    (hstart : Lays true true b pending false e.toBuilder) :
    Lays ok true b pending true (e.loopBody hasScope enter body next).toBuilder := by
  have hscope : Lays true true b pending false (e.setupLoopScope hasScope).toBuilder := by
    cases hasScope with
    | false => exact hstart
    | true => exact hstart.emitInstrs [.scopeDepth, .pushScope, .storeLoopBase]
  have hleave : ∀ e' : Emission, Lays true true e'.toBuilder [] true
      ((if hasScope then e'.instr (.popTo (.result e.current)) else e').terminate
        (.br (some next))).toBuilder := by
    intro e'
    cases hasScope with
    | false => exact (Lays.start _).emitTerminator _
    | true => exact ((Lays.start _).emitInstr _).emitTerminator _
  have hbody := ((hscope.emitInstrs enter).trans (h _)).unlessTerminated (hleave _)
  rwa [Bool.or_true] at hbody

theorem emits_varDecl {name : Ident} {type : VarType} {isConst : Bool} {value : Code} :
    Emits (Emission.varDecl name type isConst value) true true false := by
  intro e
  have hvalue := ((Lays.start e.toBuilder).emitInstr (.value value)).emitBlocks 3
    (e.instr (.value value)).context
  have htest := ((hvalue.emitInstr (.loop .initName)).emitTerminator
    (.br (some (e.instr (.value value)).size))).moveTo
  have hcopy := ((htest.emitInstr (.loop .testName)).emitTerminator
    (.condBr ((e.instr (.value value)).size + 2) ((e.instr (.value value)).size + 1))).moveTo
  have hend := ((hcopy.emitInstr (.loop .copyByte)).emitTerminator
    (.br (some (e.instr (.value value)).size))).moveTo
  exact hend.emitInstr (.varDecl name type isConst)

theorem emits_whileLoop {condition : Code} (h : Emits body ok written exits) :
    Emits (Emission.whileLoop condition hasScope body) ok true false := by
  intro e
  have hstart : Lays true false e.toBuilder (List.range' e.size 3) false
      ((e.addBlocks 3 e.context).setupLoopState (e.size + 2) e.size).toBuilder :=
    (Lays.start e.toBuilder).emitBlocks 3 e.context
  have hcond := (hstart.emitTerminator (.br (some e.size))).moveTo
  have htest := ((hcond.emitInstr (.value condition)).emitTerminator
    (.condBr (e.size + 1) (e.size + 2))).moveTo
  exact (lays_loopBody hasScope h [] e.size htest).moveTo

theorem emits_ifThenElse (condition : Code) (elseCode : Option (Emission → Emission))
    (h : Emits body ok written exits)
    (helse : Emits (elseCode.elim id (Emission.scopedBranch hasScope)) ok' written' exits') :
    Emits (Emission.ifThenElse condition hasScope body elseCode) (ok && ok') true false := by
  intro e
  have hstart := ((Lays.start e.toBuilder).emitInstr (.value condition)).emitBlocks 3
    (e.instr (.value condition)).context
  have hthen := (hstart.emitTerminator (.condBr (e.instr (.value condition)).size
    ((e.instr (.value condition)).size + 1))).moveTo
  have hbody := hthen.trans (emits_scopedBranch hasScope h _)
  have hother := (hbody.branchIfOpen ((e.instr (.value condition)).size + 2)).moveTo
  have hboth := (hother.trans (helse _)).branchIfOpen ((e.instr (.value condition)).size + 2)
  cases elseCode with
  | none => exact hboth.moveTo
  | some elseCode => exact hboth.moveTo

theorem emits_forRange {name : Ident} {start stop step : ℤ} (h : Emits body ok written exits) :
    Emits (Emission.forRange name start stop step hasScope body) ok true false := by
  intro e
  have hstart : Lays true false e.toBuilder (List.range' e.size 4) false
      ((e.addBlocks 4 (e.context.map (·.declare name))).setupLoopState (e.size + 3)
        (e.size + 2)).toBuilder :=
    (Lays.start e.toBuilder).emitBlocks 4 (e.context.map (·.declare name))
  have hdeclared := (hstart.emitInstr (.loop (.initRange start))).emitInstr
    (.varDeclIfMissing ⟨name, .typeInt, false⟩)
  have hcond := (hdeclared.emitTerminator (.br (some e.size))).moveTo
  have htest := ((hcond.emitInstr (.loop (.testRange stop step))).emitTerminator
    (.condBr (e.size + 1) (e.size + 3))).moveTo
  have hstep := (lays_loopBody hasScope h [.varAssign name] (e.size + 2) htest).moveTo
  exact ((hstep.emitInstr (.loop (.stepRange step))).emitTerminator (.br (some e.size))).moveTo

theorem emits_checkKeys (leave : ℕ) : Emits (Emission.checkKeys leave) true true false := by
  intro e
  have hblocks : Lays true false e.toBuilder [e.size + 1, e.size] false
      (e.addBlocks 2 e.context).toBuilder := by
    -- The block of the failure is filled first.
    have hmem : ∀ i, i ∈ [e.size + 1, e.size] ↔ e.size ≤ i ∧ i < e.size + 2 := by
      intro i
      rw [List.mem_cons, List.mem_singleton]
      omega
    exact (Lays.start e.toBuilder).addBlocks 2 (by simp) hmem
  have hfail := ((hblocks.emitInstr (.loop .testKeys)).emitTerminator
    (.condBr e.size (e.size + 1))).moveTo
  exact (hfail.emitTerminator (.br (some leave))).moveTo

theorem emits_testOrLeave (test : LoopInstr) (γ : Emission → Option Context) (leave : ℕ) :
    Emits (fun e => e.testOrLeave test (γ e) leave) true true false := by
  intro e
  have hblocks := ((Lays.start e.toBuilder).emitInstr (.loop test)).emitBlocks 1 (γ e)
  rw [show (e.instr (.loop test)).size = e.size from size_append _ _] at hblocks
  exact (hblocks.emitTerminator (.condBr e.size leave)).moveTo

theorem emits_keys (isDict : Bool) (leave : ℕ) :
    Emits (fun e => if isDict then e.checkKeys leave else e) true isDict false := by
  intro e
  cases isDict with
  | true => exact emits_checkKeys leave e
  | false => exact .start e.toBuilder

theorem emits_forIn {name : Ident} {iterable : Code} {isDict : Bool}
    (h : Emits body ok written exits) :
    Emits (Emission.forIn name iterable isDict hasScope body) ok true false := by
  intro e
  have hblocks : Lays true false e.toBuilder (List.range' e.size 5) false
      (((e.addBlocks 1 e.context).addBlocks 4 (e.context.map (·.declare name))).setupLoopState
        (e.size + 4) (e.size + 3)).toBuilder := by
    show Lays true false _ _ false ((e.toBuilder.addBlocks 1).addBlocks 4)
    rw [addBlocks_addBlocks]
    exact (Lays.start e.toBuilder).emitBlocks 5 e.context
  have hsetup := (hblocks.emitTerminator (.br (some e.size))).moveTo.emitInstr (.value iterable)
  have hkeys := (hsetup.trans (emits_keys isDict (e.size + 4) _)).emitInstrs
    [.loop .initIndex, .loop .arrayLength]
  have hlength := hkeys.trans (emits_testOrLeave .testLength Emission.context (e.size + 4) _)
  have hcond := ((hlength.emitInstr (.varDeclIfMissing ⟨name, .typeNil, false⟩)).emitTerminator
    (.br (some (e.size + 1)))).moveTo
  have htest := ((hcond.emitInstr (.loop .testIndex)).emitTerminator
    (.condBr (e.size + 2) (e.size + 4))).moveTo
  have helement := (htest.emitInstr (.loop .arrayGet)).trans
    (emits_testOrLeave .testElement (fun _ => e.context.map (·.declare name)) (e.size + 4) _)
  have hstep := (lays_loopBody hasScope h [.varAssign name] (e.size + 3) helement).moveTo
  exact ((hstep.emitInstr (.loop .stepIndex)).emitTerminator (.br (some (e.size + 1)))).moveTo

omit hasScope in
theorem emits_leaveLoop (popsScope : Bool) (target : Emission → Option ℕ) :
    Emits (fun e => e.leaveLoop popsScope (target e)) true true true := by
  intro e
  show Lays true true _ [] true (e.leaveLoop popsScope (target e)).toBuilder
  rw [Emission.leaveLoop]
  cases hbase : e.loopBase with
  | some base => exact ((Lays.start e.toBuilder).emitInstr _).emitTerminator _
  | none =>
      cases popsScope with
      | true => exact ((Lays.start e.toBuilder).emitInstr _).emitTerminator _
      | false => exact (Lays.start e.toBuilder).emitTerminator _

end Pieces

/-! ### Statements -/

mutual

/-- What a statement comes to. -/
theorem emits_stmt : ∀ s : CodeStmt, Emits (emitStmt s) s.exitsLast true s.isExit
  | .eval value, e => (Lays.start e.toBuilder).emitInstr (.value value)
  | .print value, e => ((Lays.start e.toBuilder).emitInstr (.value value)).emitInstr .print
  | .storeSlot slot value mirror, e =>
      ((Lays.start e.toBuilder).emitInstr (.value value)).emitInstrs
        (.storeSlot slot :: mirrorInstrs mirror)
  | .storeUnboxed slot _ value mirror, e =>
      ((Lays.start e.toBuilder).emitInstr (.cgValue value)).emitInstrs
        (.storeSlot slot :: mirrorInstrs mirror)
  | .varDecl _ _ _ _, e => emits_varDecl e
  | .varAssign name value, e =>
      ((Lays.start e.toBuilder).emitInstr (.value value)).emitInstr (.varAssign name)
  | .indexSet index target value, e =>
      ((Lays.start e.toBuilder).emitInstr (.value index)).emitInstrs
        [.value target, .value value, .indexSet]
  | .indexUpdate index target op value, e =>
      ((Lays.start e.toBuilder).emitInstr (.value index)).emitInstrs
        [.value target, .indexGet, .value value, .binaryOp op, .indexSet]
  | .memberSet target member value, e =>
      ((Lays.start e.toBuilder).emitInstr (.value target)).emitInstrs
        [.value value, .memberSet member]
  | .memberUpdate target member op value, e =>
      ((Lays.start e.toBuilder).emitInstr (.value target)).emitInstrs
        [.memberGet member, .value value, .binaryOp op, .memberSet member]
  | .ifThenElse condition hasScope thenCode none, e => by
      have hif := emits_ifThenElse hasScope condition none (emits_stmts thenCode)
        (fun e => Lays.start e.toBuilder) e
      rw [CodeStmt.exitsLast]
      rwa [Bool.and_true] at hif
  | .ifThenElse condition hasScope thenCode (some elseCode), e =>
      emits_ifThenElse hasScope condition (some (emitStmts elseCode)) (emits_stmts thenCode)
        (emits_scopedBranch hasScope (emits_stmts elseCode)) e
  | .whileLoop _ hasScope body, e => emits_whileLoop hasScope (emits_stmts body) e
  | .forRange _ _ _ _ hasScope body, e => emits_forRange hasScope (emits_stmts body) e
  | .forIn _ _ _ hasScope body, e => emits_forIn hasScope (emits_stmts body) e
  | .breakLoop popsScope, e => emits_leaveLoop popsScope Emission.loopEnd e
  | .continueLoop popsScope, e => emits_leaveLoop popsScope Emission.loopContinue e
  | .ret value, e =>
      (((Lays.start e.toBuilder).emitInstr (.value value)).emitInstrs
        [.copyReturn, .popToSafe]).emitTerminator .retVoid
  | .truncated, e => (Lays.start e.toBuilder).emitInstr (.value (.op .setNil []))

/-- What a list of statements comes to. -/
theorem emits_stmts : ∀ code : List CodeStmt,
    Emits (emitStmts code) (codeExitsLast code) (!code.isEmpty) (code.any CodeStmt.isExit)
  | [], e => .start e.toBuilder
  | s :: rest, e => by
      have hfirst : Lays s.exitsLast true e.toBuilder [] s.isExit
          (e.record s (emitStmt s e)).toBuilder := emits_stmt s e
      have hrest := emits_stmts rest (e.record s (emitStmt s e))
      show Lays _ true _ [] _ (emitStmts rest (e.record s (emitStmt s e))).toBuilder
      rw [codeExitsLast, List.any_cons]
      cases hexit : s.isExit with
      | false =>
          rw [hexit] at hfirst
          rw [Bool.not_false, Bool.true_or, Bool.and_true, Bool.false_or]
          exact hfirst.trans hrest
      | true =>
          rw [hexit] at hfirst
          rw [Bool.true_or]
          cases rest with
          | nil =>
              rw [codeExitsLast, List.isEmpty_nil, Bool.or_true, Bool.and_true, Bool.and_true]
              exact hfirst
          | cons r rest =>
              -- What stands behind the exit is appended to the block that it has ended.
              rw [List.isEmpty_cons, Bool.not_true, Bool.or_false, Bool.and_false, Bool.false_and]
              exact hfirst.trans_exit hrest

end

/-! ### Bodies -/

/-- The cleanup of `main` is emitted whatever has been emitted before it. -/
def BodyKind.cleansUp : BodyKind → Bool
  | .main => true
  | .function _ | .method _ => false

theorem lays_prologue (kind : BodyKind) :
    Lays true true .entry [] false
      (Emission.entry.instrs kind.prologue).toBuilder := by
  have hentry : Lays true false .entry [] false Emission.entry.toBuilder :=
    .start .entry
  cases kind with
  | main => exact hentry.emitInstr .runtimeInit
  | function params => exact (hentry.emitInstr .scopeDepth).emitInstrs _
  | method isConstructor => exact (hentry.emitInstr .scopeDepth).emitInstrs _

theorem emits_epilogue (kind : BodyKind) :
    Emits (fun e => (e.instrs kind.epilogue).terminate .retVoid) true true true := by
  intro e
  have hstart := Lays.start e.toBuilder
  cases kind with
  | main => exact (hstart.emitInstr _).emitTerminator _
  | function params => exact (hstart.emitInstr _).emitTerminator _
  | method isConstructor =>
      cases isConstructor with
      | true => exact (hstart.emitInstr _).emitTerminator _
      | false => exact ((hstart.emitInstr _).emitInstr _).emitTerminator _

theorem emits_finishMain : Emits BodyKind.main.finish true true true := by
  intro e
  have hcleanup := (Lays.start e.toBuilder).emitInstr .runtimeCleanup
  exact hcleanup.unlessTerminated ((Lays.start _).emitTerminator .ret)

/-- What a body comes to. -/
theorem lays_emitBody (kind : BodyKind) (code : List CodeStmt) :
    Lays (codeExitsLast code && !(kind.cleansUp && code.any CodeStmt.isExit)) true .entry [] true
      (emitBody kind code).toBuilder := by
  have hcode := (lays_prologue kind).trans (emits_stmts code _)
  -- `main` ends with calls in any case, a function only in a block that is still open.
  have hlast := hcode.unlessTerminated (emits_epilogue kind _)
  rw [Bool.or_true, Bool.true_and] at hlast
  cases kind with
  | main =>
      rw [BodyKind.cleansUp, Bool.true_and]
      cases hexit : code.any CodeStmt.isExit with
      | false =>
          rw [hexit] at hcode
          rw [Bool.not_false, Bool.and_true]
          have hfinish := hcode.trans (emits_finishMain _)
          rwa [Bool.true_and, Bool.and_true] at hfinish
      | true =>
          rw [hexit] at hcode
          rw [Bool.not_true, Bool.and_false]
          exact hcode.trans_exit (emits_finishMain _)
  | function params =>
      rw [BodyKind.cleansUp, Bool.false_and, Bool.not_false, Bool.and_true]
      exact hlast
  | method isConstructor =>
      rw [BodyKind.cleansUp, Bool.false_and, Bool.not_false, Bool.and_true]
      exact hlast

/-- The blocks of a body are well formed when nothing stands behind an exit. -/
theorem emitBody_wellFormed_iff_code (kind : BodyKind) (code : List CodeStmt) :
    WellFormed (emitBody kind code).toBuilder ↔
      codeExitsLast code = true ∧
        (kind.cleansUp = true → code.any CodeStmt.isExit = false) := by
  rw [(lays_emitBody kind code).wellFormed_iff, Bool.and_eq_true, Bool.not_eq_true']
  refine and_congr Iff.rfl ?_
  cases kind.cleansUp <;> simp

/-! ### The statements of the source -/

/-- Whether control never comes out of a statement at its end. -/
def ASTStmt.isExit : ASTStmt → Bool
  | .break | .continue | .return _ _ => true
  | _ => false

/-- Whether a statement leaves no code where it stands. -/
def ASTStmt.isDeclaration : ASTStmt → Bool
  | .funcDecl _ | .structDecl _ _ | .classDecl _ _ _ _ _ => true
  | _ => false

mutual

/-- Whether nothing but declarations stands behind an exit in the lists of a statement. -/
def ASTStmt.exitsLast : ASTStmt → Bool
  | .ifStmt _ thenBranch elseBranch => bodyExitsLast thenBranch && bodyExitsLast elseBranch
  | .whileStmt _ body | .forStmt _ _ body | .forIn _ _ body => bodyExitsLast body
  | _ => true

def bodyExitsLast : Option (List ASTStmt) → Bool
  | none => true
  | some stmts => stmtsExitLast stmts

def stmtsExitLast : List ASTStmt → Bool
  | [] => true
  | s :: rest =>
      s.exitsLast && (!s.isExit || rest.all ASTStmt.isDeclaration) && stmtsExitLast rest

end

/-- The code of a statement ends like the statement, and so do the lists in it. -/
def ASTStmt.EndsLike (s : ASTStmt) (code : List CodeStmt) : Prop :=
  if s.isDeclaration then code = []
  else ∃ c, code = [c] ∧ c.exitsLast = s.exitsLast ∧ c.isExit = s.isExit

/-- The code of a list of statements ends like the list. -/
structure StmtsEndLike (stmts : List ASTStmt) (code : List CodeStmt) : Prop where
  exitsLast : codeExitsLast code = stmtsExitLast stmts
  anyExit : code.any CodeStmt.isExit = stmts.any ASTStmt.isExit
  isEmpty : code.isEmpty = stmts.all ASTStmt.isDeclaration

theorem ASTStmt.exitsLast_of_isDeclaration {s : ASTStmt} (h : s.isDeclaration = true) :
    s.exitsLast = true ∧ s.isExit = false := by
  cases s with
  | funcDecl _ => exact ⟨rfl, rfl⟩
  | structDecl _ _ => exact ⟨rfl, rfl⟩
  | classDecl _ _ _ _ _ => exact ⟨rfl, rfl⟩
  | _ => exact absurd h Bool.false_ne_true

theorem StmtsEndLike.cons {s : ASTStmt} {stmts : List ASTStmt} {first rest : List CodeStmt}
    (hs : s.EndsLike first) (h : StmtsEndLike stmts rest) :
    StmtsEndLike (s :: stmts) (first ++ rest) := by
  rw [ASTStmt.EndsLike] at hs
  cases hdecl : s.isDeclaration with
  | true =>
      rw [if_pos hdecl] at hs
      obtain ⟨hlast, hexit⟩ := ASTStmt.exitsLast_of_isDeclaration hdecl
      rw [hs, List.nil_append]
      refine ⟨?_, ?_, ?_⟩
      · rw [stmtsExitLast, hlast, hexit]
        exact h.exitsLast
      · rw [List.any_cons, hexit]
        exact h.anyExit
      · rw [List.all_cons, hdecl]
        exact h.isEmpty
  | false =>
      rw [hdecl, if_neg Bool.false_ne_true] at hs
      obtain ⟨c, rfl, hlast, hexit⟩ := hs
      refine ⟨?_, ?_, ?_⟩
      · rw [List.singleton_append, codeExitsLast, stmtsExitLast, hlast, hexit, h.isEmpty,
          h.exitsLast]
      · rw [List.singleton_append, List.any_cons, List.any_cons, hexit, h.anyExit]
      · rw [List.all_cons, hdecl]
        rfl

section Lowering

variable {n : ℕ} {fn : Option CgCallee}

/-- The code of a statement without lists. -/
def IsPlain (code : List CodeStmt) : Prop :=
  ∃ c, code = [c] ∧ c.exitsLast = true ∧ c.isExit = false

section Builders

variable {b : BreadLang.Builder} {name : Ident} {value : ASTExpr} {op : Option Char}

theorem returns_plain {α : Type} {m : Lower α} {f : α → CodeStmt}
    (hf : ∀ a, (f a).exitsLast = true ∧ (f a).isExit = false) :
    Returns (m >>= fun a => pure [f a]) IsPlain :=
  returns_bind_any fun a => returns_pure ⟨f a, rfl, hf a⟩

theorem buildVarDecl_isPlain {type : VarType} {typeDesc : Option TypeDescriptor} {isConst : Bool} :
    Returns (buildVarDecl b fn name type typeDesc value isConst) IsPlain := by
  unfold buildVarDecl
  cases fn with
  | none => exact returns_plain fun _ => ⟨rfl, rfl⟩
  | some f =>
      dsimp only
      split
      · exact returns_bind_any fun _ => returns_bind_any fun _ => returns_plain fun _ => ⟨rfl, rfl⟩
      · exact returns_bind_any fun _ => returns_bind_any fun _ => returns_plain fun _ => ⟨rfl, rfl⟩

theorem buildUnboxedCompoundAssign_isPlain {slot : StackSlot} {type : UnboxedType} {op : Char} :
    Returns (buildUnboxedCompoundAssign b fn slot type value op) IsPlain := by
  unfold buildUnboxedCompoundAssign
  refine returns_bind_any fun rhs => ?_
  split
  · split
    · exact returns_pure ⟨_, rfl, rfl, rfl⟩
    · exact returns_plain fun _ => ⟨rfl, rfl⟩
  · exact returns_plain fun _ => ⟨rfl, rfl⟩

theorem buildVarAssign_isPlain : Returns (buildVarAssign b fn name value op) IsPlain := by
  unfold buildVarAssign
  refine returns_bind_any fun cg => ?_
  split
  · exact returns_bind_any fun _ => buildUnboxedCompoundAssign_isPlain
  · refine returns_bind_any fun _ => ?_
    unfold buildUnboxedAssign
    refine returns_bind_any fun v => ?_
    split
    · exact returns_throw
    · exact returns_pure ⟨_, rfl, rfl, rfl⟩
  · unfold buildBoxedCompoundAssign
    refine returns_bind_any fun _ => returns_bind_any fun _ => returns_bind_any fun _ => ?_
    split
    · exact returns_plain fun _ => ⟨rfl, rfl⟩
    · exact returns_plain fun _ => ⟨rfl, rfl⟩
  · unfold buildBoxedAssign
    refine returns_bind_any fun _ => ?_
    cases fn with
    | none => exact returns_plain fun _ => ⟨rfl, rfl⟩
    | some f =>
        refine returns_bind_any fun _ => ?_
        split
        · exact returns_plain fun _ => ⟨rfl, rfl⟩
        · exact returns_bind_any fun _ => returns_bind_any fun _ => returns_plain fun _ =>
            ⟨rfl, rfl⟩

theorem buildIndexAssign_isPlain {target index : ASTExpr} :
    Returns (buildIndexAssign b fn target index value op) IsPlain := by
  unfold buildIndexAssign
  refine returns_bind_any fun _ => returns_bind_any fun _ => returns_bind_any fun _ => ?_
  split
  · exact returns_pure ⟨_, rfl, rfl, rfl⟩
  · exact returns_pure ⟨_, rfl, rfl, rfl⟩

theorem buildMemberAssign_isPlain {target : ASTExpr} {member : Ident} :
    Returns (buildMemberAssign b fn target member value op) IsPlain := by
  unfold buildMemberAssign
  refine returns_bind_any fun _ => returns_bind_any fun _ => ?_
  split
  · exact returns_pure ⟨_, rfl, rfl, rfl⟩
  · exact returns_pure ⟨_, rfl, rfl, rfl⟩

theorem buildFuncDecl_returns {decl : FuncDecl} : Returns (buildFuncDecl decl) (· = []) := by
  unfold buildFuncDecl
  exact returns_bind_any fun _ => returns_bind_any fun _ => returns_pure rfl

theorem buildClassDecl_returns : Returns (buildClassDecl b name) (· = []) := by
  unfold buildClassDecl
  refine returns_bind_any fun cg => ?_
  split
  · exact returns_throw
  · exact returns_bind_any fun _ => returns_bind_any fun _ => returns_pure rfl

end Builders

theorem buildStmts_endLike (hstmt : ∀ s, Returns ((builder n).stmt fn s) s.EndsLike)
    (stmts : List ASTStmt) : Returns (buildStmts (builder n) fn stmts) (StmtsEndLike stmts) := by
  induction stmts with
  | nil =>
      intro cg code h
      cases h
      exact ⟨rfl, rfl, rfl⟩
  | cons s stmts ih =>
      intro cg code h
      obtain ⟨first, rest, hfirst, hrest, rfl, -⟩ := buildStmts_cons_ok h
      exact StmtsEndLike.cons (hstmt s _ _ hfirst) (ih _ _ hrest)

section Blocks

variable {condition iterable : ASTExpr} {name : Ident}

theorem buildBody_exitsLast (hstmt : ∀ s, Returns ((builder n).stmt fn s) s.EndsLike)
    (body : Option (List ASTStmt)) :
    Returns (buildBody (builder n) fn body) fun code => codeExitsLast code = bodyExitsLast body := by
  cases body with
  | none => exact returns_pure rfl
  | some stmts => exact fun cg code h => (buildStmts_endLike hstmt stmts cg code h).exitsLast

theorem buildLoop_exitsLast (hstmt : ∀ s, Returns ((builder n).stmt fn s) s.EndsLike) {α : Type}
    {head : Lower α} (body : Option (List ASTStmt)) :
    Returns (buildLoop (builder n) fn head body) fun r =>
      codeExitsLast r.2 = bodyExitsLast body := by
  unfold buildLoop
  refine returns_bind_any fun outer => returns_bind_any fun _ => returns_bind_any fun a => ?_
  have hbody : Returns (do
      let code ← buildBody (builder n) fn body
      modify fun cg => { cg with inLoop := outer.inLoop, loopHasScope := outer.loopHasScope }
      return (a, code)) fun r => codeExitsLast r.2 = bodyExitsLast body :=
    returns_bind (buildBody_exitsLast hstmt body) fun code hcode =>
      returns_bind_any fun _ => returns_pure hcode
  split
  · exact returns_bind_any fun _ => hbody
  · exact hbody

theorem buildIf_endsLike (hstmt : ∀ s, Returns ((builder n).stmt fn s) s.EndsLike)
    (thenBranch elseBranch : Option (List ASTStmt)) :
    Returns (buildIf (builder n) fn condition thenBranch elseBranch)
      (ASTStmt.ifStmt condition thenBranch elseBranch).EndsLike := by
  unfold buildIf
  refine returns_bind_any fun c => returns_bind (buildBody_exitsLast hstmt thenBranch) ?_
  intro thenCode hthen
  cases elseBranch with
  | none =>
      refine returns_pure ⟨_, rfl, ?_, rfl⟩
      rw [CodeStmt.exitsLast, ASTStmt.exitsLast, hthen, bodyExitsLast, Bool.and_true]
  | some stmts =>
      refine returns_bind (buildBody_exitsLast hstmt (some stmts)) fun elseCode helse => ?_
      exact returns_pure ⟨_, rfl, by rw [CodeStmt.exitsLast, ASTStmt.exitsLast, hthen, helse], rfl⟩

theorem buildWhile_endsLike (hstmt : ∀ s, Returns ((builder n).stmt fn s) s.EndsLike)
    (body : Option (List ASTStmt)) :
    Returns (buildWhile (builder n) fn condition body)
      (ASTStmt.whileStmt condition body).EndsLike := by
  unfold buildWhile
  refine returns_bind (buildLoop_exitsLast hstmt body) fun r hr => ?_
  exact returns_pure ⟨_, rfl, by rw [CodeStmt.exitsLast, ASTStmt.exitsLast, hr], rfl⟩

theorem buildFor_endsLike (hstmt : ∀ s, Returns ((builder n).stmt fn s) s.EndsLike)
    (body : Option (List ASTStmt)) :
    Returns (buildFor (builder n) fn name iterable body)
      (ASTStmt.forStmt name iterable body).EndsLike := by
  unfold buildFor
  split
  · exact returns_throw
  · refine returns_bind (buildLoop_exitsLast hstmt body) fun r hr => ?_
    exact returns_pure ⟨_, rfl, by rw [CodeStmt.exitsLast, ASTStmt.exitsLast, hr], rfl⟩

theorem buildForIn_endsLike (hstmt : ∀ s, Returns ((builder n).stmt fn s) s.EndsLike)
    (body : Option (List ASTStmt)) :
    Returns (buildForIn (builder n) fn name iterable body)
      (ASTStmt.forIn name iterable body).EndsLike := by
  unfold buildForIn
  refine returns_bind (buildLoop_exitsLast hstmt body) fun r hr => ?_
  exact returns_pure ⟨_, rfl, by rw [CodeStmt.exitsLast, ASTStmt.exitsLast, hr], rfl⟩

end Blocks

theorem IsPlain.endsLike {s : ASTStmt} {code : List CodeStmt} (h : IsPlain code)
    (hs : s.isDeclaration = false ∧ s.exitsLast = true ∧ s.isExit = false) : s.EndsLike code := by
  obtain ⟨c, rfl, hlast, hexit⟩ := h
  rw [ASTStmt.EndsLike, hs.1, if_neg Bool.false_ne_true, hs.2.1, hs.2.2]
  exact ⟨c, rfl, hlast, hexit⟩

/-- **The code of a statement** ends like the statement. -/
theorem builder_endsLike : ∀ (n : ℕ) (fn : Option CgCallee) (s : ASTStmt),
    Returns ((builder n).stmt fn s) s.EndsLike
  | 0, _, _ => returns_throw
  | n + 1, fn, s => by
      have hstmt := builder_endsLike n fn
      show Returns (buildStmt (builder n) fn s) s.EndsLike
      have hplain {m : Lower (List CodeStmt)} (hm : Returns m IsPlain)
          (hs : s.isDeclaration = false ∧ s.exitsLast = true ∧ s.isExit = false) :
          Returns m s.EndsLike := fun cg code h => (hm cg code h).endsLike hs
      cases s with
      | expr e => exact hplain (returns_plain fun _ => ⟨rfl, rfl⟩) ⟨rfl, rfl, rfl⟩
      | print e => exact hplain (returns_plain fun _ => ⟨rfl, rfl⟩) ⟨rfl, rfl, rfl⟩
      | varDecl name type typeDesc init isConst => exact hplain buildVarDecl_isPlain ⟨rfl, rfl, rfl⟩
      | varAssign name value op => exact hplain buildVarAssign_isPlain ⟨rfl, rfl, rfl⟩
      | indexAssign target index value op => exact hplain buildIndexAssign_isPlain ⟨rfl, rfl, rfl⟩
      | memberAssign target member value op =>
          exact hplain buildMemberAssign_isPlain ⟨rfl, rfl, rfl⟩
      | ifStmt condition thenBranch elseBranch => exact buildIf_endsLike hstmt thenBranch elseBranch
      | whileStmt condition body => exact buildWhile_endsLike hstmt body
      | forStmt name rangeExpr body => exact buildFor_endsLike hstmt body
      | forIn name iterable body => exact buildForIn_endsLike hstmt body
      | «break» =>
          refine returns_bind_any fun cg => ?_
          split
          · exact returns_pure ⟨_, rfl, rfl, rfl⟩
          · exact returns_throw
      | «continue» =>
          refine returns_bind_any fun cg => ?_
          split
          · exact returns_pure ⟨_, rfl, rfl, rfl⟩
          · exact returns_throw
      | funcDecl decl => exact buildFuncDecl_returns
      | structDecl name fields => exact returns_pure rfl
      | classDecl name parentName fields methods constructor => exact buildClassDecl_returns
      | «return» e tag =>
          refine returns_bind_any fun v => ?_
          split
          · exact returns_throw
          · exact returns_pure ⟨_, rfl, rfl, rfl⟩
      | importStmt modulePath moduleAlias isSelective symbols => exact returns_throw
      | exportStmt isDefault symbols => exact returns_throw

end Lowering

/-- **The control flow of a body** is well formed exactly when only declarations stand behind a
`return`, `break` or `continue` in any list of statements, and there is none of these in the
list of `main` itself. -/
theorem emitBody_wellFormed_iff (kind : BodyKind) {n : ℕ} {fn : Option CgCallee}
    {stmts : List ASTStmt} {cg : Cg} {code : List CodeStmt}
    (h : (buildStmts (builder n) fn stmts).result cg = .ok code) :
    WellFormed (emitBody kind code).toBuilder ↔
      stmtsExitLast stmts = true ∧
        (kind.cleansUp = true → stmts.any ASTStmt.isExit = false) := by
  have hcode := buildStmts_endLike (builder_endsLike n fn) stmts cg code h
  rw [emitBody_wellFormed_iff_code, hcode.exitsLast, hcode.anyExit]

/-- `def f() -> Int`, which prints behind its `return`. -/
def printsAfterReturn : FuncDecl :=
  ⟨"f".toList, [], .typeInt, some .int, some [.return (.int 1) none, .print (.int 2)]⟩

/-- `def g() -> Int`, which leaves a loop and returns. -/
def returnsAfterLoop : FuncDecl :=
  ⟨"g".toList, [], .typeInt, some .int, some [
    .whileStmt (.bool true) (some [.print (.int 2), .break]), .return (.int 1) none]⟩

theorem returnsAfterLoop_wellFormed :
    ∃ program a stmts code, semanticAnalyze .init [.funcDecl returnsAfterLoop] =
        .ok (program, a) ∧ program = [.funcDecl { returnsAfterLoop with body := some stmts }] ∧
      (buildStmts (builder 5) (some ⟨[], true, none⟩) stmts).result a = .ok code ∧
      (WellFormed (emitBody (.function []) code).toBuilder ↔ stmtsExitLast stmts = true ∧
        (BodyKind.cleansUp (.function []) = true → stmts.any ASTStmt.isExit = false)) := by
  refine ⟨_, _, _, _, rfl, rfl, rfl, ?_⟩
  exact @emitBody_wellFormed_iff (.function []) 5 (some ⟨[], true, none⟩) _ _ _ rfl

/-- The function is accepted and built, and its block has two terminators. -/
theorem printsAfterReturn_not_wellFormed :
    ∃ program a stmts code, semanticAnalyze .init [.funcDecl printsAfterReturn] =
        .ok (program, a) ∧ program = [.funcDecl { printsAfterReturn with body := some stmts }] ∧
      (buildStmts (builder 3) (some ⟨[], true, none⟩) stmts).result a = .ok code ∧
      ¬ WellFormed (emitBody (.function []) code).toBuilder := by
  refine ⟨_, _, _, _, rfl, rfl, rfl, fun hwf => ?_⟩
  have hlast := ((emitBody_wellFormed_iff_code _ _).mp hwf).1
  exact absurd hlast (by decide +kernel)

end BreadLang
