import BreadLang.Codegen.EmittedPaths
import BreadLang.Codegen.ReturnPaths

/-!
# Returns of compiled functions

The analysis accepts a function with a return type only if its statements return on every run
to their end.  The code that is built of them then has no path to its end either, so what
`cleanup_function_scope` emits behind it is never executed: every path through the blocks ends
with the instructions of a `return`.
-/

namespace BreadLang

open BasicBlocks BasicBlocks.Builder Stateful
open scoped Computability

/-! ### The last actions of a path -/

/-- What a piece does before it returns ends so. -/
def Ways.ReturnsBy {K : Type*} [Mul K] (last : K) (f : Ways K) : Prop :=
  ∃ l, f.returned = l * last

section ReturnsBy

variable {last step : Language Action} {f g : Ways (Language Action)} {hasScope : Bool}

theorem returnsBy_of_zero (h : f.returned = 0) : f.ReturnsBy last :=
  ⟨0, by rw [h, zero_mul]⟩

theorem Ways.ReturnsBy.seq (hf : f.ReturnsBy last) (hg : g.ReturnsBy last) :
    (f.seq g).ReturnsBy last := by
  obtain ⟨l, hl⟩ := hf
  obtain ⟨l', hl'⟩ := hg
  exact ⟨l + f.normal * l', by rw [Ways.seq, hl, hl', add_mul, mul_assoc]⟩

theorem Ways.ReturnsBy.choice (hf : f.ReturnsBy last) (hg : g.ReturnsBy last) :
    (f.choice g).ReturnsBy last := by
  obtain ⟨l, hl⟩ := hf
  obtain ⟨l', hl'⟩ := hg
  exact ⟨l + l', by rw [Ways.choice, hl, hl', add_mul]⟩

theorem Ways.ReturnsBy.loop (hf : f.ReturnsBy last) : (f.loop step).ReturnsBy last := by
  obtain ⟨l, hl⟩ := hf
  exact ⟨(f.again step)∗ * l, by rw [Ways.loop, hl, mul_assoc]⟩

theorem returnsBy_steps (is : List Instr) : (steps is).ReturnsBy last :=
  returnsBy_of_zero rfl

theorem returnsBy_testOr (i : Instr) : (testOr i).ReturnsBy last :=
  returnsBy_of_zero rfl

theorem Ways.ReturnsBy.inBlock (hf : f.ReturnsBy last) : (inBlock hasScope f).ReturnsBy last := by
  cases hasScope with
  | false => exact hf
  | true => exact (returnsBy_steps _).seq (hf.seq (returnsBy_of_zero rfl))

theorem Ways.ReturnsBy.turnOf {enter : List Instr} (hf : f.ReturnsBy last) :
    (turnOf hasScope enter f).ReturnsBy last := by
  cases hasScope with
  | false => exact (returnsBy_steps _).seq hf
  | true => exact (returnsBy_steps _).seq (hf.seq (returnsBy_of_zero rfl))

mutual

/-- A statement returns by the instructions of a `return`. -/
theorem CodeStmt.returnsBy (inScope : Bool) : ∀ s : CodeStmt,
    (s.ways inScope).ReturnsBy (word [.copyReturn, .popToSafe])
  | .varDecl _ _ _ _ => by
      rw [CodeStmt.ways]
      exact (returnsBy_steps _).seq
        ((((returnsBy_testOr _).seq (returnsBy_steps _)).loop).seq (returnsBy_steps _))
  | .ifThenElse _ _ thenCode none => by
      rw [CodeStmt.ways]
      exact (returnsBy_steps _).seq ((codeWays_returnsBy inScope thenCode).inBlock.choice
        (returnsBy_steps _))
  | .ifThenElse _ _ thenCode (some elseCode) => by
      rw [CodeStmt.ways]
      exact (returnsBy_steps _).seq ((codeWays_returnsBy inScope thenCode).inBlock.choice
        (codeWays_returnsBy inScope elseCode).inBlock)
  | .whileLoop _ _ body => by
      rw [CodeStmt.ways]
      exact ((returnsBy_testOr _).seq (codeWays_returnsBy _ body).turnOf).loop
  | .forRange _ _ _ _ _ body => by
      rw [CodeStmt.ways]
      exact (returnsBy_steps _).seq
        ((returnsBy_testOr _).seq (codeWays_returnsBy _ body).turnOf).loop
  | .forIn _ _ isDict _ body => by
      rw [CodeStmt.ways]
      have hkeys : (if isDict then testOr (.loop .testKeys) else steps []).ReturnsBy
          (word [.copyReturn, .popToSafe]) := by
        cases isDict with
        | true => exact returnsBy_testOr _
        | false => exact returnsBy_steps _
      exact (returnsBy_steps _).seq (hkeys.seq ((returnsBy_steps _).seq
        ((returnsBy_testOr _).seq ((returnsBy_steps _).seq ((returnsBy_testOr _).seq
          ((returnsBy_steps _).seq ((returnsBy_testOr _).seq
            (codeWays_returnsBy _ body).turnOf))).loop))))
  | .breakLoop _ => by
      rw [CodeStmt.ways]
      exact returnsBy_of_zero rfl
  | .continueLoop _ => by
      rw [CodeStmt.ways]
      exact returnsBy_of_zero rfl
  | .ret value => by
      rw [CodeStmt.ways]
      exact ⟨word [.value value], word_append [.value value] [.copyReturn, .popToSafe]⟩
  | .eval _ | .print _ | .storeSlot _ _ _ | .storeUnboxed _ _ _ _ | .varAssign _ _
  | .indexSet _ _ _ | .indexUpdate _ _ _ _ | .memberSet _ _ _ | .memberUpdate _ _ _ _
  | .truncated => by
      unfold CodeStmt.ways
      exact returnsBy_of_zero rfl

theorem codeWays_returnsBy (inScope : Bool) : ∀ code : List CodeStmt,
    (codeWays inScope code).ReturnsBy (word [.copyReturn, .popToSafe])
  | [] => by
      rw [codeWays]
      exact returnsBy_steps _
  | s :: rest => by
      rw [codeWays]
      exact (s.returnsBy inScope).seq (codeWays_returnsBy inScope rest)

end

end ReturnsBy

/-! ### Paths to the end -/

/-- **The code has a path to its end** only if a run of the statements comes to theirs. -/
def EndsOnlyLike (stmts : List ASTStmt) (code : List CodeStmt) : Prop :=
  ∀ inScope actions, actions ∈ (codeWays inScope code).normal → Runs stmts .normal

section EndsOnlyLike

variable {s : ASTStmt} {stmts : List ASTStmt} {code first rest : List CodeStmt} {n : ℕ}
  {fn : Option CgCallee}

theorem normal_append (inScope : Bool) (first rest : List CodeStmt) :
    (codeWays inScope (first ++ rest)).normal =
      (codeWays inScope first).normal * (codeWays inScope rest).normal := by
  induction first with
  | nil =>
      rw [List.nil_append, codeWays]
      exact (one_mul _).symm
  | cons s first ih =>
      rw [List.cons_append, codeWays, codeWays, Ways.seq, ih]
      exact (mul_assoc _ _ _).symm

/-- After a run to the end of the first statement come those of the others. -/
theorem Runs.cons_normal (h : Runs [s] .normal) (hstmts : Runs stmts .normal) :
    Runs (s :: stmts) .normal := by
  generalize hl : [s] = l at h
  generalize hending : Ending.normal = ending at h hstmts ⊢
  induction h with
  | nil => cases hl
  | straight hs _ _ =>
      cases hl
      exact .straight hs hstmts
  | «break» | «continue» | «return» | loopReturn => cases hending
  | branch hbranch hrun _ _ _ =>
      cases hl
      exact .branch hbranch hrun hstmts
  | branchEnds _ _ hends _ => exact absurd hending.symm hends
  | loopDone hbody _ _ =>
      cases hl
      exact .loopDone hbody hstmts
  | loopAgain hbody hrun honce _ _ ih =>
      cases hl
      exact .loopAgain hbody hrun honce (ih rfl hending hstmts)
  | loopBreak hbody hrun _ _ _ =>
      cases hl
      exact .loopBreak hbody hrun hstmts

theorem EndsOnlyLike.cons (hfirst : EndsOnlyLike [s] first) (hrest : EndsOnlyLike stmts rest) :
    EndsOnlyLike (s :: stmts) (first ++ rest) := by
  intro inScope actions hactions
  rw [normal_append] at hactions
  obtain ⟨left, hleft, right, hright, -⟩ := Language.mem_mul.mp hactions
  exact (hfirst inScope left hleft).cons_normal (hrest inScope right hright)

theorem exists_of_inBlock {hasScope : Bool} {f : Ways (Language Action)} {actions : List Action}
    (h : actions ∈ (inBlock hasScope f).normal) : ∃ actions', actions' ∈ f.normal := by
  cases hasScope with
  | false => exact ⟨actions, h⟩
  | true =>
      obtain ⟨_, _, _, hrest, -⟩ := Language.mem_mul.mp h
      obtain ⟨actions', h', -⟩ := Language.mem_mul.mp hrest
      exact ⟨actions', h'⟩

/-- A conditional is left at its end through a block. -/
theorem exists_of_ifThenElse {c : Code} {hasScope inScope : Bool} {thenCode : List CodeStmt}
    {elseCode : Option (List CodeStmt)} {actions : List Action}
    (h : actions ∈ ((CodeStmt.ifThenElse c hasScope thenCode elseCode).ways inScope).normal) :
    ∃ actions', actions' ∈ (codeWays inScope thenCode).normal ∨
      actions' ∈ (codeWays inScope (elseCode.getD [])).normal := by
  cases elseCode with
  | none =>
      rw [CodeStmt.ways] at h
      obtain ⟨_, _, rest, hchoice, -⟩ := Language.mem_mul.mp h
      rcases (Language.mem_add _ _ _).mp hchoice with hthen | hskip
      · exact (exists_of_inBlock hthen).imp fun _ => .inl
      · refine ⟨rest, .inr ?_⟩
        rw [Option.getD_none, codeWays]
        exact hskip
  | some elseCode =>
      rw [CodeStmt.ways] at h
      obtain ⟨_, _, _, hchoice, -⟩ := Language.mem_mul.mp h
      rcases (Language.mem_add _ _ _).mp hchoice with hthen | helse
      · exact (exists_of_inBlock hthen).imp fun _ => .inl
      · exact (exists_of_inBlock helse).imp fun _ => .inr

theorem endsOnlyLike_ifStmt {condition : ASTExpr} {thenBranch elseBranch : Option (List ASTStmt)}
    {c : Code} {hasScope : Bool} {thenCode : List CodeStmt} {elseCode : Option (List CodeStmt)}
    (hthen : EndsOnlyLike (thenBranch.getD []) thenCode)
    (helse : EndsOnlyLike (elseBranch.getD []) (elseCode.getD [])) :
    EndsOnlyLike [.ifStmt condition thenBranch elseBranch]
      [.ifThenElse c hasScope thenCode elseCode] := by
  intro inScope actions hactions
  have htaken {branch : List ASTStmt} (hbranch : branch ∈ [thenBranch.getD [], elseBranch.getD []])
      (hrun : Runs branch .normal) : Runs [.ifStmt condition thenBranch elseBranch] .normal :=
    .branch hbranch hrun .nil
  rw [codeWays] at hactions
  obtain ⟨_, hif, _, -, -⟩ := Language.mem_mul.mp hactions
  obtain ⟨actions', hleft | hright⟩ := exists_of_ifThenElse hif
  · exact htaken List.mem_cons_self (hthen inScope actions' hleft)
  · exact htaken (.tail _ (.head _)) (helse inScope actions' hright)

/-- An exit is not left at its end. -/
theorem endsOnlyLike_exit {c : CodeStmt} (hc : c.isExit = true) : EndsOnlyLike [s] [c] := by
  intro inScope actions hactions
  rw [codeWays] at hactions
  obtain ⟨actions', h', -⟩ := Language.mem_mul.mp hactions
  cases c with
  | breakLoop | continueLoop | ret =>
      rw [CodeStmt.ways] at h'
      exact absurd h' (Language.notMem_zero _)
  | _ => cases hc

theorem buildStmts_endsOnlyLike (hstmt : ∀ s, Returns ((builder n).stmt fn s) (EndsOnlyLike [s]))
    (stmts : List ASTStmt) : Returns (buildStmts (builder n) fn stmts) (EndsOnlyLike stmts) := by
  induction stmts with
  | nil =>
      intro cg code h
      cases h
      exact fun _ _ _ => .nil
  | cons s stmts ih =>
      intro cg code h
      obtain ⟨first, rest, hfirst, hrest, rfl, -⟩ := buildStmts_cons_ok h
      exact (hstmt s _ _ hfirst).cons (ih _ _ hrest)

theorem buildIf_endsOnlyLike (hstmt : ∀ s, Returns ((builder n).stmt fn s) (EndsOnlyLike [s]))
    (condition : ASTExpr) (thenBranch elseBranch : Option (List ASTStmt)) :
    Returns (buildIf (builder n) fn condition thenBranch elseBranch)
      (EndsOnlyLike [.ifStmt condition thenBranch elseBranch]) := by
  have hbody (body : Option (List ASTStmt)) :
      Returns (buildBody (builder n) fn body) (EndsOnlyLike (body.getD [])) := by
    cases body with
    | none => exact returns_pure fun _ _ _ => .nil
    | some stmts => exact buildStmts_endsOnlyLike hstmt stmts
  unfold buildIf
  refine returns_bind_any fun c => returns_bind (hbody thenBranch) fun thenCode hthen => ?_
  cases elseBranch with
  | none => exact returns_pure (endsOnlyLike_ifStmt hthen fun _ _ _ => .nil)
  | some stmts =>
      refine returns_bind (hbody (some stmts)) fun elseCode helse => ?_
      exact returns_pure (endsOnlyLike_ifStmt hthen helse)

/-- **The code of a statement** has a path to its end only if a run of the statement has. -/
theorem builder_endsOnlyLike : ∀ (n : ℕ) (fn : Option CgCallee) (s : ASTStmt),
    Returns ((builder n).stmt fn s) (EndsOnlyLike [s])
  | 0, _, _ => returns_throw
  | n + 1, fn, s => by
      have hstmt := builder_endsOnlyLike n fn
      show Returns (buildStmt (builder n) fn s) (EndsOnlyLike [s])
      have hany {m : Lower (List CodeStmt)} (hrun : Runs [s] .normal) : Returns m (EndsOnlyLike [s]) :=
        fun _ _ _ _ _ _ => hrun
      cases s with
      | ifStmt condition thenBranch elseBranch =>
          exact buildIf_endsOnlyLike hstmt condition thenBranch elseBranch
      | whileStmt | forStmt | forIn => exact hany (.loopDone rfl .nil)
      | «break» | «continue» =>
          refine returns_bind_any fun cg => ?_
          split
          · exact returns_pure (endsOnlyLike_exit rfl)
          · exact returns_throw
      | «return» e tag =>
          refine returns_bind_any fun v => ?_
          split
          · exact returns_throw
          · exact returns_pure (endsOnlyLike_exit rfl)
      | _ => exact hany (.straight trivial .nil)

end EndsOnlyLike

/-! ### Accepted functions -/

/-- **A compiled function with a return type returns on every path** through its blocks: the
last that is done is what `build_return_stmt` emits. -/
theorem compiled_function_returns {decl decl' : FuncDecl} {stmts : List ASTStmt} {a a' cg : Cg}
    {n : ℕ} {fn : Option CgCallee} {code : List CodeStmt} {params : List Ident}
    {actions : List Action} (h : (Analyze.analyzeFunction decl).run a = .ok (decl', a'))
    (hnil : decl.returnType ≠ .typeNil)
    (hoptional : ∀ d, decl.returnTypeDesc ≠ some (.optional d)) (hbody : decl'.body = some stmts)
    (hcode : (buildStmts (builder n) fn stmts).result cg = .ok code)
    (hwf : WellFormed (emitBody (.function params) code).toBuilder)
    (hpath : actions ∈ blockReading.paths (emitBody (.function params) code).toBuilder 0 0) :
    [.does .copyReturn, .does .popToSafe] <:+ actions := by
  have haccepted := (Analyze.accepted_guaranteesReturn h hnil hoptional hbody).1
  have hnormal : (codeWays false code).normal = 0 := by
    ext actions
    refine iff_of_false (fun hactions => ?_) (Language.notMem_zero actions)
    have hrun := buildStmts_endsOnlyLike (builder_endsOnlyLike n fn) stmts cg code hcode false
      actions hactions
    exact Cg.not_normal_of_guaranteesReturn hrun haccepted rfl
  obtain ⟨l, hreturned⟩ := codeWays_returnsBy false code
  have hpaths : blockReading.paths (emitBody (.function params) code).toBuilder 0 0 =
      bodyPaths (.function params) code :=
    (goesOn_body hwf).ahead
  rw [hpaths, bodyPaths, Ways.meets, hnormal, hreturned, zero_mul, mul_zero, mul_zero,
    zero_add, zero_add, zero_add, mul_one, ← mul_assoc] at hpath
  obtain ⟨before, -, last, rfl, rfl⟩ := Language.mem_mul.mp hpath
  exact List.suffix_append _ _

/-- The code of the function that leaves a loop and returns. -/
def returnsAfterLoopCode : List CodeStmt :=
  [.whileLoop (.op (.constBool true) []) false
    [.print (.op (.box .int) [.op (.constInt 2) []]), .breakLoop false],
   .ret (.op (.box .int) [.op (.constInt 1) []])]

/-- What it does when it leaves the loop at the first test. -/
def returnsAfterLoopActions : List Action :=
  [.scopeDepth, .storeFunctionBase, .pushScope, .value (.op (.constBool true) []),
    .value (.op (.box .int) [.op (.constInt 1) []]), .copyReturn, .popToSafe].map Instr.action

theorem returnsAfterLoop_returns : ∃ decl' a' stmts,
    (Analyze.analyzeFunction returnsAfterLoop).run .init = .ok (decl', a') ∧
      decl'.body = some stmts ∧
      (buildStmts (builder 5) (some ⟨[], true, none⟩) stmts).result a' =
        .ok returnsAfterLoopCode ∧
      [.does .copyReturn, .does .popToSafe] <:+ returnsAfterLoopActions := by
  have hcompiled : ∃ decl' a' stmts,
      (Analyze.analyzeFunction returnsAfterLoop).run .init = .ok (decl', a') ∧
        decl'.body = some stmts ∧
        (buildStmts (builder 5) (some ⟨[], true, none⟩) stmts).result a' =
          .ok returnsAfterLoopCode :=
    ⟨_, _, _, rfl, rfl, rfl⟩
  obtain ⟨decl', a', stmts, h, hbody, hcode⟩ := hcompiled
  have hwf : WellFormed (emitBody (.function []) returnsAfterLoopCode).toBuilder :=
    (emitBody_wellFormed_iff_code _ _).mpr ⟨rfl, by decide⟩
  have hpath : blockReading.Path (emitBody (.function []) returnsAfterLoopCode).toBuilder 0 0
      returnsAfterLoopActions := by
    have hinstr (block index : ℕ) (i : Instr) (rest : List Action) := @Reading.Path.instr _ _ _
      blockReading (emitBody (.function []) returnsAfterLoopCode).toBuilder block index i rest
    -- past the prologue to the test, which leaves the loop
    refine hinstr 0 0 _ _ rfl (hinstr 0 1 _ _ rfl (hinstr 0 2 _ _ rfl ?_))
    refine .branch rfl (.head _) (hinstr 1 0 _ _ rfl ?_)
    refine .branch rfl (.tail _ (.head _)) ?_
    exact hinstr 3 0 _ _ rfl (hinstr 3 1 _ _ rfl (hinstr 3 2 _ _ rfl (.leave rfl (.inl rfl))))
  exact ⟨decl', a', stmts, h, hbody, hcode,
    compiled_function_returns h (by decide) (by rintro _ ⟨⟩) hbody hcode hwf hpath⟩

end BreadLang
