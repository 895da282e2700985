import BreadLang.Codegen.AnalyzeStmt
import BreadLang.Compiler.ControlFlow

/-!
# Paths to a return

A function that returns a value has to return one on every path.  The analysis looks for a
`return`, or for a conditional with one in both branches, among the statements of the body; and it
checks the types of the `return`s it finds in conditionals and loops.
-/

namespace BreadLang

namespace Cg

theorem guaranteesReturn_branches {s : ASTStmt} (h : stmtGuaranteesReturn s = true)
    {branch : List ASTStmt} (hbranch : branch ∈ s.branches) :
    stmtsGuaranteeReturn branch = true := by
  cases s with
  | ifStmt condition thenBranch elseBranch =>
      rw [stmtGuaranteesReturn, Bool.and_eq_true, Bool.and_eq_true] at h
      obtain ⟨⟨-, hthen⟩, helse⟩ := h
      obtain rfl | rfl : branch = thenBranch.getD [] ∨ branch = elseBranch.getD [] := by
        simpa [ASTStmt.branches] using hbranch
      · cases thenBranch with
        | none => cases hthen
        | some stmts => exact hthen
      · cases elseBranch with
        | none => cases helse
        | some stmts => exact helse
  | _ => cases hbranch

theorem not_guaranteesReturn_of_loop {s : ASTStmt} {body : List ASTStmt}
    (h : s.loopBody = some body) : stmtGuaranteesReturn s = false := by
  cases s with
  | whileStmt | forStmt | forIn => rfl
  | _ => cases h

theorem not_guaranteesReturn_of_straight {s : ASTStmt} (h : s.IsStraight) :
    stmtGuaranteesReturn s = false := by
  cases s with
  | ifStmt | «return» => exact absurd h id
  | _ => rfl

/-- **A list that is accepted does not end without a jump.** -/
theorem not_normal_of_guaranteesReturn {stmts : List ASTStmt} {ending : Ending}
    (h : Runs stmts ending) : stmtsGuaranteeReturn stmts = true → ending ≠ .normal := by
  have hfirst : ∀ {s : ASTStmt} {stmts : List ASTStmt}, stmtGuaranteesReturn s = false →
      stmtsGuaranteeReturn (s :: stmts) = true → stmtsGuaranteeReturn stmts = true := by
    intro s stmts hs h
    rwa [stmtsGuaranteeReturn, hs, Bool.false_or] at h
  induction h with
  | nil => intro h; cases h
  | straight hs _ ih => exact fun h => ih (hfirst (not_guaranteesReturn_of_straight hs) h)
  | «break» => intro _ h; cases h
  | «continue» => intro _ h; cases h
  | «return» => intro _ h; cases h
  | branchEnds _ _ hends => exact fun _ => hends
  | loopDone hbody _ ih => exact fun h => ih (hfirst (not_guaranteesReturn_of_loop hbody) h)
  | loopAgain _ _ _ _ _ ih => exact ih
  | loopBreak hbody _ _ _ ih => exact fun h => ih (hfirst (not_guaranteesReturn_of_loop hbody) h)
  | loopReturn => intro _ h; cases h
  | @branch s branch stmts ending hbranch _ _ ihbranch ih =>
      intro h
      -- a conditional that is left at its end has a branch without a return
      by_cases hs : stmtGuaranteesReturn s = true
      · exact absurd rfl (ihbranch (guaranteesReturn_branches hs hbranch))
      · exact ih (hfirst (Bool.not_eq_true _ ▸ hs) h)

mutual

/-- The `return`s that `cg_check_returns_in_stmt` checks, in order. -/
def returnsVisited : ASTStmt → List ReturnValue
  | .return e tag => [(e, tag)]
  | .ifStmt _ thenBranch elseBranch =>
      bodyReturnsVisited thenBranch ++ bodyReturnsVisited elseBranch
  | .whileStmt _ body => bodyReturnsVisited body
  | .forStmt _ _ body => bodyReturnsVisited body
  | .forIn _ _ body => bodyReturnsVisited body
  | _ => []

def bodyReturnsVisited : Option (List ASTStmt) → List ReturnValue
  | none => []
  | some stmts => stmtsReturnsVisited stmts

def stmtsReturnsVisited : List ASTStmt → List ReturnValue
  | [] => []
  | s :: stmts => returnsVisited s ++ stmtsReturnsVisited stmts

end

/-- Checks one `return` after the other, up to the first that fails. -/
def checkReturns (decl : FuncDecl) (values : List ReturnValue) : CgResult Unit :=
  values.forM fun value => checkReturnStmt decl value.1 value.2

theorem checkReturns_append (decl : FuncDecl) (values values' : List ReturnValue) :
    checkReturns decl (values ++ values') =
      checkReturns decl values >>= fun _ => checkReturns decl values' :=
  List.forM_append

mutual

/-- `cg_check_returns_in_stmt` checks these `return`s and does nothing else. -/
theorem checkReturnsInStmt_eq (decl : FuncDecl) :
    ∀ s : ASTStmt, checkReturnsInStmt decl s = checkReturns decl (returnsVisited s)
  | .return e tag => (bind_pure (checkReturnStmt decl e tag)).symm
  | .ifStmt condition thenBranch elseBranch => by
      rw [checkReturnsInStmt, returnsVisited, checkReturns_append,
        checkReturnsInBody_eq decl thenBranch, checkReturnsInBody_eq decl elseBranch]
  | .whileStmt condition body => by
      rw [checkReturnsInStmt, returnsVisited, checkReturnsInBody_eq decl body]
  | .forStmt name rangeExpr body => by
      rw [checkReturnsInStmt, returnsVisited, checkReturnsInBody_eq decl body]
  | .forIn name iterable body => by
      rw [checkReturnsInStmt, returnsVisited, checkReturnsInBody_eq decl body]
  | .varDecl .. | .varAssign .. | .indexAssign .. | .memberAssign .. | .print _ | .expr _
  | .break | .continue | .funcDecl _ | .structDecl .. | .classDecl .. | .importStmt ..
  | .exportStmt .. => rfl

theorem checkReturnsInBody_eq (decl : FuncDecl) :
    ∀ body : Option (List ASTStmt),
      checkReturnsInBody decl body = checkReturns decl (bodyReturnsVisited body)
  | none => rfl
  | some stmts => checkReturnsInStmts_eq decl stmts

theorem checkReturnsInStmts_eq (decl : FuncDecl) :
    ∀ stmts : List ASTStmt,
      checkReturnsInStmts decl stmts = checkReturns decl (stmtsReturnsVisited stmts)
  | [] => rfl
  | s :: stmts => by
      rw [checkReturnsInStmts, stmtsReturnsVisited, checkReturns_append,
        checkReturnsInStmt_eq decl s, checkReturnsInStmts_eq decl stmts]

end

theorem returnsVisited_branches {s : ASTStmt} {branch : List ASTStmt}
    (hbranch : branch ∈ s.branches) : stmtsReturnsVisited branch ⊆ returnsVisited s := by
  have hbody : ∀ body : Option (List ASTStmt),
      stmtsReturnsVisited (body.getD []) = bodyReturnsVisited body := by
    intro body
    cases body <;> rfl
  cases s with
  | ifStmt condition thenBranch elseBranch =>
      obtain rfl | rfl : branch = thenBranch.getD [] ∨ branch = elseBranch.getD [] := by
        simpa [ASTStmt.branches] using hbranch
      · rw [returnsVisited, hbody]
        exact List.subset_append_left _ _
      · rw [returnsVisited, hbody]
        exact List.subset_append_right _ _
  | _ => cases hbranch

theorem returnsVisited_loop {s : ASTStmt} {body : List ASTStmt} (h : s.loopBody = some body) :
    stmtsReturnsVisited body = returnsVisited s := by
  cases s with
  | whileStmt condition body' => cases h; cases body' <;> rfl
  | forStmt name rangeExpr body' => cases h; cases body' <;> rfl
  | forIn name iterable body' => cases h; cases body' <;> rfl
  | _ => cases h

/-- **Every `return` that a run reaches is visited.** -/
theorem returnsVisited_of_reaches {stmts : List ASTStmt} {s : ASTStmt} (h : RunReaches stmts s) :
    ∀ e tag, s = .return e tag → (e, tag) ∈ stmtsReturnsVisited stmts := by
  induction h with
  | here =>
      rintro e tag rfl
      exact List.mem_append_left _ (List.mem_singleton.mpr rfl)
  | after _ _ ih => exact fun e tag hs => List.mem_append_right _ (ih e tag hs)
  | branch hbranch _ ih =>
      exact fun e tag hs =>
        List.mem_append_left _ (returnsVisited_branches hbranch (ih e tag hs))
  | loop hbody _ ih =>
      exact fun e tag hs => List.mem_append_left _ (returnsVisited_loop hbody ▸ ih e tag hs)
  | loopAgain _ _ _ _ ih => exact ih

/-- **Checking returns is sound**: a list that is accepted returns on every run, and the check
consists of the checks of the visited `return`s, which are all that a run can reach. -/
theorem return_checking_sound (decl : FuncDecl) {stmts : List ASTStmt}
    (hjumps : ¬LeavesLoop stmts) :
    (bodyGuaranteesReturn (some stmts) = true →
      ∀ ending, Runs stmts ending → ∃ value, ending = .return value) ∧
    (∀ e tag, RunReaches stmts (.return e tag) → (e, tag) ∈ stmtsReturnsVisited stmts) ∧
      checkReturnsInStmts decl stmts = checkReturns decl (stmtsReturnsVisited stmts) := by
  refine ⟨fun haccepted ending hrun => ?_, fun e tag h => returnsVisited_of_reaches h e tag rfl,
    checkReturnsInStmts_eq decl stmts⟩
  cases ending with
  | normal => exact absurd rfl (not_normal_of_guaranteesReturn hrun haccepted)
  | «break» => exact absurd (hrun.leavesLoop (.inl rfl)) hjumps
  | «continue» => exact absurd (hrun.leavesLoop (.inr rfl)) hjumps
  | «return» value => exact ⟨value, rfl⟩

/-- A loop with a `break`, and then a conditional that returns in both branches. -/
def loopThenConditional : List ASTStmt :=
  [.whileStmt (.bool true) (some [.break]),
    .ifStmt (.bool true) (some [.return (.int 1) none]) (some [.return (.int 2) none])]

theorem loopThenConditional_jumps : ¬LeavesLoop loopThenConditional := by
  intro h
  cases h with
  | «break» h => simp [loopThenConditional] at h
  | «continue» h => simp [loopThenConditional] at h
  | @branch s branch _ hs hbranch h =>
      obtain rfl | rfl := List.mem_pair.mp hs
      · cases hbranch
      · -- a branch holds a return only
        have hreturn : ∃ e, branch = [.return e none] := by
          obtain rfl | rfl := List.mem_pair.mp hbranch
          · exact ⟨_, rfl⟩
          · exact ⟨_, rfl⟩
        obtain ⟨e, rfl⟩ := hreturn
        cases h with
        | «break» h => simp at h
        | «continue» h => simp at h
        | branch hs hbranch =>
            obtain rfl := List.mem_singleton.mp hs
            cases hbranch

/-- No run goes on after the loop and the conditional. -/
theorem loop_then_conditional_returns : ¬Runs loopThenConditional .normal := by
  intro hrun
  obtain ⟨value, hvalue⟩ := (return_checking_sound ⟨['f'], [], .typeInt, none, none⟩
    loopThenConditional_jumps).1 rfl _ hrun
  cases hvalue

end Cg

/-! ### Accepted functions -/

/-- The `return` that a run ends with is one that it reaches. -/
theorem Runs.reaches_return {stmts : List ASTStmt} {ending : Ending} (h : Runs stmts ending)
    {value : ReturnValue} (hending : ending = .return value) :
    RunReaches stmts (.return value.1 value.2) := by
  induction h with
  | nil | «break» | «continue» => cases hending
  | straight hs _ ih => exact .after (.straight hs .nil) (ih hending)
  | «return» =>
      cases hending
      exact .here
  | branch hbranch hrun _ _ ih => exact .after (.branch hbranch hrun .nil) (ih hending)
  | branchEnds hbranch _ _ ih => exact .branch hbranch (ih hending)
  | loopDone hbody _ ih => exact .after (.loopDone hbody .nil) (ih hending)
  | loopAgain hbody hrun honce _ _ ih => exact .loopAgain hbody hrun honce (ih hending)
  | loopBreak hbody hrun _ _ ih => exact .after (.loopBreak hbody hrun .nil) (ih hending)
  | loopReturn hbody _ ih => exact .loop hbody (ih hending)

theorem Cg.checkReturns_ok {decl : FuncDecl} {values : List ReturnValue}
    (h : checkReturns decl values = .ok ()) :
    ∀ value ∈ values, checkReturnStmt decl value.1 value.2 = .ok () := by
  induction values with
  | nil => intro value hvalue; cases hvalue
  | cons first values ih =>
      have h : (checkReturnStmt decl first.1 first.2 >>= fun _ => checkReturns decl values) =
        .ok () := h
      obtain ⟨u, hfirst, hrest⟩ := bind_eq_ok.mp h
      intro value hvalue
      rcases List.mem_cons.mp hvalue with rfl | hvalue
      · exact hfirst
      · exact ih hrest value hvalue

namespace Analyze

variable {a a' : Cg}

theorem analyzeFunctionStmts_checked {decl : FuncDecl} {stmts stmts' : List ASTStmt}
    (h : (analyzeFunctionStmts decl stmts).run a = .ok (stmts', a')) :
    Cg.checkReturnsInStmts decl stmts' = .ok () := by
  induction stmts generalizing a a' stmts' with
  | nil =>
      obtain ⟨rfl, -⟩ := run_pure_eq_ok.mp h
      rfl
  | cons s stmts ih =>
      rw [analyzeFunctionStmts] at h
      obtain ⟨t, a₁, -, h⟩ := run_bind_eq_ok.mp h
      obtain ⟨u, hreturns, h⟩ := run_reads_bind_eq_ok.mp h
      obtain ⟨ts, a₂, hstmts, h⟩ := run_bind_eq_ok.mp h
      obtain ⟨rfl, -⟩ := run_pure_eq_ok.mp h
      rw [Cg.checkReturnsInStmts]
      exact bind_eq_ok.mpr ⟨u, hreturns, ih hstmts⟩

/-- What has been found of an accepted function, when its return type is neither `Nil` nor an
optional. -/
theorem accepted_guaranteesReturn {decl decl' : FuncDecl} {stmts : List ASTStmt}
    (h : (analyzeFunction decl).run a = .ok (decl', a')) (hnil : decl.returnType ≠ .typeNil)
    (hoptional : ∀ d, decl.returnTypeDesc ≠ some (.optional d)) (hbody : decl'.body = some stmts) :
    Cg.stmtsGuaranteeReturn stmts = true ∧ Cg.checkReturnsInStmts decl stmts = .ok () := by
  unfold analyzeFunction at h
  rw [run_modify_bind_eq_ok] at h
  obtain ⟨u, a₁, -, h⟩ := run_bind_eq_ok.mp h
  obtain ⟨stmts', a₂, hstmts, h⟩ := run_bind_eq_ok.mp h
  obtain ⟨u, hguarantee, h⟩ := run_reads_bind_eq_ok.mp h
  rw [run_modify_bind_eq_ok] at h
  obtain ⟨rfl, -⟩ := run_pure_eq_ok.mp h
  have hbody : decl.body.map (fun _ => stmts') = some stmts := hbody
  rw [hbody] at hguarantee
  obtain ⟨body, -, rfl⟩ := Option.map_eq_some_iff.mp hbody
  refine ⟨?_, analyzeFunctionStmts_checked hstmts⟩
  cases hreturns : Cg.stmtsGuaranteeReturn stmts' with
  | true => rfl
  | false =>
      have hneeded : (decl.returnType != .typeNil && !false) = true := by simpa using hnil
      unfold checkGuaranteedReturn at hguarantee
      rw [Cg.bodyGuaranteesReturn, hreturns, if_pos hneeded] at hguarantee
      split at hguarantee
      · next d hd => exact absurd hd (hoptional d)
      · cases hguarantee

/-- **An accepted function returns a value of its type** on every run of its body that comes to an
end, when its return type is neither `Nil` nor an optional. -/
theorem accepted_function_returns {decl decl' : FuncDecl} {stmts : List ASTStmt}
    {ending : Ending} (h : (analyzeFunction decl).run a = .ok (decl', a'))
    (hnil : decl.returnType ≠ .typeNil)
    (hoptional : ∀ d, decl.returnTypeDesc ≠ some (.optional d))
    (hbody : decl'.body = some stmts) (hjumps : ¬LeavesLoop stmts) (hrun : Runs stmts ending) :
    ∃ value, ending = .return value ∧ Cg.checkReturnStmt decl value.1 value.2 = .ok () := by
  obtain ⟨haccepted, hchecked⟩ := accepted_guaranteesReturn h hnil hoptional hbody
  have hreturned : ∃ value, ending = .return value := by
    cases ending with
    | normal => exact absurd rfl (Cg.not_normal_of_guaranteesReturn hrun haccepted)
    | «break» => exact absurd (hrun.leavesLoop (.inl rfl)) hjumps
    | «continue» => exact absurd (hrun.leavesLoop (.inr rfl)) hjumps
    | «return» value => exact ⟨value, rfl⟩
  obtain ⟨value, rfl⟩ := hreturned
  rw [Cg.checkReturnsInStmts_eq] at hchecked
  exact ⟨value, rfl, Cg.checkReturns_ok hchecked value
    (Cg.returnsVisited_of_reaches (hrun.reaches_return rfl) _ _ rfl)⟩

end Analyze

end BreadLang
